import Apex.Grammar.Unit
import Apex.Proofs.Blur.Statements

/-!
# Declarations and files through a blur

Members, types, triggers and whole files are read without seeing through a blur. The names that the
grammar compares, with the name of the class or with the words of the language, are compared up to
letter case.
-/

namespace Apex

namespace Grammar

open Apex.Parser Apex.Parser.Like

variable {b : Blur} {D : Deeper}

/-! ## Members -/

theorem parameter_like (h : D.Like b) : Like b (Parameter.blur b) (parameter D) (parameter D) := by
  refine bind here fun start start' hs => bind modifiers_like fun modifiers modifiers' hm => ?_
  refine bind (typeRef_like h.typeRef) fun type type' ht => bind identifier fun name name' hn => ?_
  refine bind (spanFrom hs) fun span span' same => pure ?_
  simp only [Parameter.blur, same, hm, ht, hn]

theorem parameters_like (h : D.Like b) :
    Like b (List.map (Parameter.blur b)) (parameters D) (parameters D) := by
  have list : Like b (List.map (Parameter.blur b)) (parameterList D) (parameterList D) :=
    bindSame (isAt rfl) fun _ => ite (pure rfl) (commaSeparated (parameter_like h))
  refine bind (expect rfl) fun _ _ _ => bind list fun params params' hp => ?_
  exact bind (expect rfl) fun _ _ _ => pure hp

theorem someBlock_like (h : D.Like b) :
    Like b (Option.map (Block.blur b)) (do return some (← block D)) (do return some (← block D)) :=
  bind (block_like h) fun _ _ hb => pure (congrArg some hb)

theorem methodBody_like (h : D.Like b) :
    Like b (Option.map (Block.blur b)) (methodBody D) (methodBody D) := by
  refine bindSame (isAt rfl) fun opened => ite (someBlock_like h) ?_
  exact bindSame (accept rfl) fun bodiless => ite (pure rfl) (fail _)

theorem noBody_like : Like b (Option.map (Block.blur b)) noBody noBody :=
  bind (expect rfl) fun _ _ _ => pure rfl

theorem methodRest_like (h : D.Like b) {header header' : Header} {type type' : Option TypeRef}
    {body : Parser (Option Block)} (hh : header.blur b = header'.blur b)
    (ht : type.map (TypeRef.blur b) = type'.map (TypeRef.blur b))
    (hb : Like b (Option.map (Block.blur b)) body body) :
    Like b (Method.blur b) (methodRest D header type body) (methodRest D header' type' body) := by
  refine bind identifier fun name name' hn => bind (parameters_like h) fun params params' hp => ?_
  refine bind hb fun body body' hb => pure ?_
  simp only [Method.blur, hh, ht, hn, hp, hb]

theorem returnType_like (h : D.Like b) :
    Like b (Option.map (TypeRef.blur b)) (returnType D) (returnType D) :=
  bindSame (accept rfl) fun _ => ite (pure rfl)
    (bind (typeRef_like h.typeRef) fun _ _ ht => pure (congrArg some ht))

theorem constructorRest_like (h : D.Like b) {header header' : Header}
    (hh : header.blur b = header'.blur b) :
    Like b (Constructor.blur b) (constructorRest D header) (constructorRest D header') := by
  refine bind identifier fun name name' hn => bind (parameters_like h) fun params params' hp => ?_
  refine bind (block_like h) fun body body' hb => pure ?_
  simp only [Constructor.blur, hh, hn, hp, hb]

theorem accessorKind_like : Like b id accessorKind accessorKind := by
  refine kindBind fun k k' hk => ?_
  rw [hk.spells, hk.spells]
  exact ite (pure rfl) (ite (pure rfl) (fail _))

theorem accessorBody_like (h : D.Like b) :
    Like b (Option.map (Block.blur b)) (accessorBody D) (accessorBody D) := by
  refine bindSame (accept rfl) fun bodiless => ite (pure rfl) ?_
  exact bindSame (isAt rfl) fun opened => ite (someBlock_like h) (fail _)

theorem accessor_like (h : D.Like b) {earlier earlier' : List Accessor}
    (same : earlier.map (Accessor.blur b) = earlier'.map (Accessor.blur b)) :
    Like b (Accessor.blur b) (accessor D earlier) (accessor D earlier') := by
  have kinds (accessors : List Accessor) (kind : AccessorKind) :
      accessors.any (·.kind == kind) = (accessors.map (Accessor.blur b)).any (·.kind == kind) := by
    rw [List.any_map]
    rfl
  refine bind here fun start start' hs => bind modifiers_like fun modifiers modifiers' hm => ?_
  refine bindSame accessorKind_like fun kind => ?_
  rw [kinds earlier, same, ← kinds]
  refine check (fail _) (bindSame advance fun _ => ?_)
  refine bind (accessorBody_like h) fun body body' hb => ?_
  refine bind (spanFrom hs) fun span span' same => pure ?_
  simp only [Accessor.blur, same, hm, hb]

theorem accessors_like (h : D.Like b) :
    Like b (List.map (Accessor.blur b)) (accessors D) (accessors D) := by
  refine iterate (List.map (Accessor.blur b)) (fun read read' same => ?_) rfl
  refine bindSame (isAt rfl) fun closed => ?_
  exact ite (done_reverse same) (again_cons (accessor_like h same) same)

theorem propertyRest_like (h : D.Like b) {header header' : Header} {type type' : TypeRef}
    {name name' : Ident} (hh : header.blur b = header'.blur b) (ht : type.blur b = type'.blur b)
    (hn : Ident.blur b name = Ident.blur b name') :
    Like b (Property.blur b) (propertyRest D header type name)
      (propertyRest D header' type' name') := by
  refine bind (expect rfl) fun _ _ _ => bind (accessors_like h) fun accessors accessors' ha => ?_
  have empty : accessors.isEmpty = accessors'.isEmpty := by
    rw [← List.isEmpty_map (f := Accessor.blur b), ha, List.isEmpty_map]
  rw [empty]
  refine check (fail _) (bind (expect rfl) fun _ _ _ => pure ?_)
  simp only [Property.blur, hh, ht, hn, ha]

theorem initializerRest_like (h : D.Like b) {header header' : Header}
    (hh : header.blur b = header'.blur b) :
    Like b (Initializer.blur b) (initializerRest D header) (initializerRest D header') := by
  have bare (header : Header) : (header.annotations.isEmpty &&
      header.modifiers.all (·.value == .isStatic)) = ((header.blur b).annotations.isEmpty &&
        (header.blur b).modifiers.all (·.value == .isStatic)) := by
    simp only [Header.blur, List.isEmpty_map, List.all_map]
    rfl
  have static : header.has .isStatic = header'.has .isStatic :=
    any_value_like (congrArg Header.modifiers hh) _
  unfold initializerRest
  rw [bare, hh, ← bare, static]
  refine check (fail _) (bind (block_like h) fun body body' hb => pure ?_)
  simp only [Initializer.blur, hb]

theorem variableMember_like (h : D.Like b) {header header' : Header} {start start' : Span}
    {type type' : TypeRef} {name name' : Ident} (hh : header.blur b = header'.blur b)
    (hs : b.span start = b.span start') (ht : type.blur b = type'.blur b)
    (hn : Ident.blur b name = Ident.blur b name') :
    Like b (Member.blur b) (variableMember D header start type name)
      (variableMember D header' start' type' name') := by
  have field : Like b (Member.blur b)
      (do let declarators ← declarators D name
          let _ ← Parser.expect (.punctuation .semicolon)
          return .field (← Parser.spanFrom start) ⟨header, type, declarators⟩)
      (do let declarators ← declarators D name'
          let _ ← Parser.expect (.punctuation .semicolon)
          return .field (← Parser.spanFrom start') ⟨header', type', declarators⟩) := by
    refine bind (declarators_like h hn) fun declarators declarators' hd => ?_
    refine bind (expect rfl) fun _ _ _ => bind (spanFrom hs) fun span span' same => pure ?_
    simp only [Member.blur, Field.blur, same, hh, ht, hd]
  refine kindBind fun k k' hk => ?_
  cases hk with
  | name | soql | sosl => exact fail _
  | refl =>
    split
    · refine bind (propertyRest_like h hh ht hn) fun property property' hp => ?_
      refine bind (spanFrom hs) fun span span' same => pure ?_
      simp only [Member.blur, same, hp]
    · exact field
    · exact field
    · exact field
    · exact fail _

theorem method_like {start start' : Span} {method method' : Parser Method}
    (hs : b.span start = b.span start') (hm : Like b (Method.blur b) method method') :
    Like b (Member.blur b)
      (do let method ← method; return .method (← Parser.spanFrom start) method)
      (do let method ← method'; return .method (← Parser.spanFrom start') method) := by
  refine bind hm fun method method' hm => bind (spanFrom hs) fun span span' same => pure ?_
  simp only [Member.blur, same, hm]

theorem typedMember_like (h : D.Like b) {header header' : Header} {start start' : Span}
    (hh : header.blur b = header'.blur b) (hs : b.span start = b.span start') :
    Like b (Member.blur b) (typedMember D header start) (typedMember D header' start') := by
  refine bind (typeRef_like h.typeRef) fun type type' ht => kindAtBind fun k k' hk => ?_
  refine iteIff (hk.eq_iff rfl) ?_ (bind identifier fun _ _ hn => variableMember_like h hh hs ht hn)
  exact method_like hs (methodRest_like h hh (congrArg some ht) (methodBody_like h))

/-- A member is read as a constructor when its name is that of the class up to letter case. -/
theorem classMember_like (h : D.Like b) {className className' : String}
    (hc : lowerWord className = lowerWord className') :
    Like b (Member.blur b) (classMember D className) (classMember D className') := by
  refine bind (header_like h) fun read read' hr => ?_
  have hh : read.header.blur b = read'.header.blur b := congrArg ReadHeader.header hr
  refine bind (declarationStart_like hr) fun start start' hs => kindBind fun k k' hk => ?_
  have named (text text' : String) (same : lowerWord text = lowerWord text') :
      Like b (Member.blur b)
        (do if sameWord text className && (← Parser.kindAt 1) == .punctuation .openParen then
              let constructor ← constructorRest D read.header
              return .constructor (← Parser.spanFrom start) constructor
            typedMember D read.header start)
        (do if sameWord text' className' && (← Parser.kindAt 1) == .punctuation .openParen then
              let constructor ← constructorRest D read'.header
              return .constructor (← Parser.spanFrom start') constructor
            typedMember D read'.header start') := by
    refine kindAtBind fun next next' hnext => ?_
    rw [hnext.beq_eq rfl, sameWord, sameWord, same, hc]
    refine ite ?_ (typedMember_like h hh hs)
    refine bind (constructorRest_like h hh) fun constructor constructor' hk => ?_
    refine bind (spanFrom hs) fun span span' same => pure ?_
    simp only [Member.blur, same, hk]
  have type : Like b (Member.blur b) (do return .type (← D.typeDeclaration read))
      (do return .type (← D.typeDeclaration read')) := by
    refine bind (h.typeDeclaration _ _ hr) fun type type' ht => pure ?_
    simp only [Member.blur, ht]
  cases hk with
  | soql | sosl => exact typedMember_like h hh hs
  | name same => exact named _ _ (b.text_word same)
  | refl =>
    split
    · refine bind (initializerRest_like h hh) fun initializer initializer' hi => ?_
      refine bind (spanFrom hs) fun span span' same => pure ?_
      simp only [Member.blur, same, hi]
    · exact type
    · exact type
    · exact type
    · refine bindSame advance fun _ => ?_
      exact method_like hs (methodRest_like h hh rfl (methodBody_like h))
    · exact named _ _ rfl
    · exact typedMember_like h hh hs

theorem memberOrStray_like (h : D.Like b) {className className' : String}
    (hc : lowerWord className = lowerWord className') :
    Like b (Member.blur b) (memberOrStray D className) (memberOrStray D className') := by
  refine bindSame (isAt rfl) fun stray => ite ?_ (classMember_like h hc)
  refine nextBind fun t t' ht => pure ?_
  simp only [Member.blur, ht.span]

theorem interfaceMethod_like (h : D.Like b) :
    Like b (Method.blurSpanned b) (interfaceMethod D) (interfaceMethod D) := by
  refine bind (header_like h) fun read read' hr => ?_
  refine bind (declarationStart_like hr) fun start start' hs => ?_
  refine bind (returnType_like h) fun type type' ht => ?_
  refine bind (methodRest_like h (congrArg ReadHeader.header hr) ht noBody_like)
    fun method method' hm => bind (spanFrom hs) fun span span' same => pure ?_
  simp only [Method.blurSpanned, same, hm]

/-! ## Types -/

theorem braced_like {α γ : Type} {view : α → γ} {item item' : Parser α}
    (h : Like b view item item') : Like b (List.map view) (braced item) (braced item') := by
  refine bind (expect rfl) fun _ _ _ => bind (itemsUntil rfl h) fun items items' hi => ?_
  exact bind (expect rfl) fun _ _ _ => pure hi

theorem typesBehind_like (h : D.Like b) (k : Keyword) :
    Like b (List.map (TypeRef.blur b)) (typesBehind D k) (typesBehind D k) :=
  bindSame (accept rfl) fun _ => ite (commaSeparated (typeRef_like h.typeRef)) (pure rfl)

theorem baseType_like (h : D.Like b) :
    Like b (Option.map (TypeRef.blur b)) (baseType D) (baseType D) :=
  bindSame (accept rfl) fun _ => ite (map (typeRef_like h.typeRef) fun _ _ => congrArg some)
    (pure rfl)

theorem classHead_like (h : D.Like b) {header header' : Header}
    (hh : header.blur b = header'.blur b) :
    Like b (ClassHead.blur b) (classHead D header) (classHead D header') := by
  refine bind identifier fun name name' hn => bind (baseType_like h) fun base base' hb => ?_
  refine bind (typesBehind_like h _) fun interfaces interfaces' hi => pure ?_
  simp only [ClassHead.blur, hh, hn, hb, hi]

theorem interfaceHead_like (h : D.Like b) {header header' : Header}
    (hh : header.blur b = header'.blur b) :
    Like b (InterfaceHead.blur b) (interfaceHead D header) (interfaceHead D header') := by
  refine bind identifier fun name name' hn => ?_
  refine bind (typesBehind_like h _) fun bases bases' hb => pure ?_
  simp only [InterfaceHead.blur, hh, hn, hb]

theorem enumConstants_like :
    Like b (Prod.map (List.map (Ident.blur b)) id) enumConstants enumConstants := by
  refine iterate (Prod.map (List.map (Ident.blur b)) id) (fun read read' same => ?_) rfl
  obtain ⟨constants, comma⟩ := read
  obtain ⟨constants', comma'⟩ := read'
  simp only [Prod.map, id, Prod.mk.injEq] at same
  obtain ⟨hc, rfl⟩ := same
  refine bindSame (isAt rfl) fun closed => ite (pure ?_) ?_
  · simp only [Turn.map, Prod.map, id, List.map_reverse, hc]
  · refine bind identifier fun constant constant' hk => bindSame (accept rfl) fun more => ?_
    refine ite (pure ?_) (pure ?_)
    · simp only [Turn.map, Prod.map, id, List.map_cons, hk, hc]
    · simp only [Turn.map, Prod.map, id, List.map_reverse, List.map_cons, hk, hc]

theorem enumRest_like {header header' : Header} (hh : header.blur b = header'.blur b) :
    Like b (EnumDeclaration.blur b) (enumRest header) (enumRest header') := by
  refine bind identifier fun name name' hn => bind (expect rfl) fun _ _ _ => ?_
  refine bind enumConstants_like fun read read' hr => bind (expect rfl) fun _ _ _ => pure ?_
  simp only [Prod.map, id, Prod.mk.injEq] at hr
  simp only [EnumDeclaration.blur, hh, hn, hr.1, hr.2]

theorem typeDeclaration_like (h : D.Like b) {read read' : ReadHeader}
    (hr : read.blur b = read'.blur b) :
    Like b (TypeDeclaration.blur b) (typeDeclaration D read) (typeDeclaration D read') := by
  have hh : read.header.blur b = read'.header.blur b := congrArg ReadHeader.header hr
  refine bind (declarationStart_like hr) fun start start' hs => kindBind fun k k' hk => ?_
  cases hk with
  | name | soql | sosl => exact fail _
  | refl =>
    split
    · refine bindSame advance fun _ => bind (classHead_like h hh) fun head head' he => ?_
      have name := b.text_word (Ident.text_like (congrArg ClassHead.name he))
      refine bind (braced_like (memberOrStray_like h name)) fun members members' hm => ?_
      refine bind (spanFrom hs) fun span span' same => pure ?_
      simp only [TypeDeclaration.blur, Member.blurAll_eq_map, same, he, hm]
    · refine bindSame advance fun _ => bind (interfaceHead_like h hh) fun head head' he => ?_
      refine bind (braced_like (interfaceMethod_like h)) fun methods methods' hm => ?_
      refine bind (spanFrom hs) fun span span' same => pure ?_
      simp only [TypeDeclaration.blur, same, he, hm]
    · refine bindSame advance fun _ => bind (enumRest_like hh) fun declaration declaration' hd => ?_
      refine bind (spanFrom hs) fun span span' same => pure ?_
      simp only [TypeDeclaration.blur, same, hd]
    · exact fail _

/-! ## Triggers and files -/

theorem anyWord_like (expected : List String) :
    Like b b.text (anyWord expected) (anyWord expected) := by
  intro c d like
  have word := like.current.kind.word?
  have failed : SameOutcome b b.text _ _ := fail expected c d like
  unfold anyWord
  generalize c.current.kind.word? = w at word ⊢
  generalize d.current.kind.word? = w' at word ⊢
  cases w <;> cases w' <;> simp only [Option.map, reduceCtorEq, Option.some.injEq] at word
  · exact failed
  · exact .ok word like.advance

theorem ofWord?_like {word word' : String} (same : b.text word = b.text word') :
    TriggerTiming.ofWord? word = TriggerTiming.ofWord? word' := by
  unfold TriggerTiming.ofWord? sameWord
  rw [b.text_word same]

theorem ofWords?_like {timing timing' operation operation' : String}
    (ht : b.text timing = b.text timing') (ho : b.text operation = b.text operation') :
    TriggerEvent.ofWords? timing operation = TriggerEvent.ofWords? timing' operation' := by
  simp only [TriggerEvent.ofWords?, ofWord?_like ht, sameWord, b.text_word ho]

theorem triggerEvent_like : Like b (Spanned.blur b) triggerEvent triggerEvent := by
  refine bind here fun start start' hs => bind (anyWord_like _) fun timing timing' ht => ?_
  rw [ofWord?_like ht]
  refine check (throw ?_) (bind (anyWord_like _) fun operation operation' ho => ?_)
  · simp only [ParseError.blur, hs, ht]
  · refine bind (spanFrom hs) fun span span' same => ?_
    rw [ofWords?_like ht ho]
    split
    · refine pure ?_
      simp only [Spanned.blur, same]
    · refine throw ?_
      simp only [ParseError.blur, same, b.text_append (b.text_append ht rfl) ho]

theorem triggerDeclaration_like (h : D.Like b) :
    Like b (Declaration.blur b) (triggerDeclaration D) (triggerDeclaration D) := by
  refine bind (expect rfl) fun start start' hs => bind identifier fun name name' hn => ?_
  refine bind (expectWord _) fun _ _ _ => bind identifier fun object object' ho => ?_
  refine bind (expect rfl) fun _ _ _ => ?_
  refine bind (commaSeparated triggerEvent_like) fun events events' he => ?_
  refine bind (expect rfl) fun _ _ _ => bind (block_like h) fun body body' hb => ?_
  refine bind (spanFrom hs) fun span span' same => pure ?_
  simp only [Declaration.blur, Trigger.blur, same, hn, ho, he, hb]

theorem declaration_like (h : D.Like b) :
    Like b (Declaration.blur b) (declaration D) (declaration D) := by
  refine bindSame (isAt rfl) fun trigger => ite (triggerDeclaration_like h) ?_
  refine bind (header_like h) fun read read' hr => ?_
  refine bind (typeDeclaration_like h hr) fun type type' ht => pure ?_
  simp only [Declaration.blur, ht]

theorem throughPrevious_like {start start' : Span} (hs : b.span start = b.span start') :
    Like b b.span (throughPrevious start) (throughPrevious start') := by
  intro c d like
  have last := like.previous?
  unfold throughPrevious
  cases hc : c.previous? <;> cases hd : d.previous? <;>
    simp only [hc, hd, Option.map, reduceCtorEq, Option.some.injEq] at last
  · exact .ok hs like
  · exact .ok (b.span_merge hs last) like

theorem declarationAndSemicolons_like (h : D.Like b) :
    Like b (Prod.map (Declaration.blur b) id) (declarationAndSemicolons D)
      (declarationAndSemicolons D) := by
  refine bind here fun start start' hs => getBind fun c d like => ?_
  rw [like.atEnd]
  refine bindSame (isAt rfl) fun semicolon => ite ?_ ?_
  · refine bindSame semicolons fun count => bind (throughPrevious_like hs) fun span span' same => ?_
    refine pure ?_
    simp only [Prod.map, Declaration.blur, same]
  · refine bind (declaration_like h) fun found found' hf => bindSame semicolons fun count => pure ?_
    simp only [Prod.map, hf]

theorem compilationUnit_like (h : D.Like b) :
    Like b (CompilationUnit.blur b) (compilationUnit D) (compilationUnit D) := by
  refine bind here fun start start' hs => ?_
  refine bind (declarationAndSemicolons_like h) fun found found' hf => getBind fun c d like => ?_
  rw [like.atEnd]
  refine check (fail _) (bind (throughPrevious_like hs) fun span span' same => pure ?_)
  simp only [Prod.map, id, Prod.mk.injEq] at hf
  simp only [CompilationUnit.blur, same, hf.1, hf.2]

end Grammar

end Apex
