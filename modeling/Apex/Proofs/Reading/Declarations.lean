import Apex.Grammar.Unit
import Apex.Proofs.Reading.Statements

/-!
# When declarations are read

The parsers of members, types, triggers and files, each with an equivalence that says what a
successful run consists of.
-/

namespace Apex.Grammar

open Apex.Parser

variable {D : Deeper} {c c' : Cursor}

/-! ## Members -/

theorem parameter_ok {r : Parameter × Cursor} :
    parameter D c = .ok r ↔
      ∃ mods c₁ type c₂ name c₃, modifiers c = .ok (mods, c₁) ∧
        typeRef D.typeRef c₁ = .ok (type, c₂) ∧ identifier c₂ = .ok (name, c₃) ∧
        (⟨c₃.spanFrom c.current.span, mods, type, name⟩, c₃) = r := by
  simp [parameter]

theorem parameterList_ok {r : List Parameter × Cursor} :
    parameterList D c = .ok r ↔
      (c.current.kind = .punctuation .closeParen ∧ ([], c) = r) ∨
      (c.current.kind ≠ .punctuation .closeParen ∧
        commaSeparated (parameter D) c = .ok r) := by
  simp [parameterList]

theorem parameters_ok {r : List Parameter × Cursor} :
    parameters D c = .ok r ↔
      c.current.kind = .punctuation .openParen ∧
      ∃ params c₁, parameterList D c.advance = .ok (params, c₁) ∧
        c₁.current.kind = .punctuation .closeParen ∧ (params, c₁.advance) = r := by
  simp [parameters]

theorem methodBody_ok {r : Option Block × Cursor} :
    methodBody D c = .ok r ↔
      (c.current.kind = .punctuation .openBrace ∧
        ∃ body c₁, block D c = .ok (body, c₁) ∧ (some body, c₁) = r) ∨
      (c.current.kind = .punctuation .semicolon ∧ (none, c.advance) = r) := by
  by_cases opened : c.current.kind = .punctuation .openBrace
  · simp [methodBody, opened]
  · simp [methodBody, opened]

theorem noBody_ok {r : Option Block × Cursor} :
    noBody c = .ok r ↔
      c.current.kind = .punctuation .semicolon ∧ (none, c.advance) = r := by
  simp [noBody]

theorem methodRest_ok {header : Header} {returnType : Option TypeRef}
    {body : Parser (Option Block)} {r : Method × Cursor} :
    methodRest D header returnType body c = .ok r ↔
      ∃ name c₁ params c₂ read c₃, identifier c = .ok (name, c₁) ∧
        parameters D c₁ = .ok (params, c₂) ∧ body c₂ = .ok (read, c₃) ∧
        (⟨header, returnType, name, params, read⟩, c₃) = r := by
  simp [methodRest]

theorem returnType_ok {r : Option TypeRef × Cursor} :
    returnType D c = .ok r ↔
      (c.current.kind = .keyword .kwVoid ∧ (none, c.advance) = r) ∨
      (c.current.kind ≠ .keyword .kwVoid ∧
        ∃ type c₁, typeRef D.typeRef c = .ok (type, c₁) ∧ (some type, c₁) = r) := by
  simp [returnType]

theorem constructorRest_ok {header : Header} {r : Constructor × Cursor} :
    constructorRest D header c = .ok r ↔
      ∃ name c₁ params c₂ body c₃, identifier c = .ok (name, c₁) ∧
        parameters D c₁ = .ok (params, c₂) ∧ block D c₂ = .ok (body, c₃) ∧
        (⟨header, name, params, body⟩, c₃) = r := by
  simp [constructorRest]

/-- The kind of accessor that a token announces. -/
def accessorAhead? (t : Token) : Option AccessorKind :=
  if t.kind.spells .kwGet then some .get
  else if t.kind.spells .kwSet then some .set
  else none

@[simp] theorem accessorKind_bind_ok {β : Type} {f : AccessorKind → Parser β} {r : β × Cursor} :
    (accessorKind >>= f) c = .ok r ↔
      ∃ kind, accessorAhead? c.current = some kind ∧ f kind c = .ok r := by
  have run : accessorKind c =
      match accessorAhead? c.current with
      | some kind => .ok (kind, c)
      | none => Parser.fail
        [(TokenKind.keyword .kwGet).description, (TokenKind.keyword .kwSet).description] c := by
    rw [accessorKind]
    unfold accessorAhead?
    show (if c.current.kind.spells .kwGet = true then pure .get
      else _ : Parser AccessorKind) c = _
    split
    · rfl
    · split <;> rfl
  cases h : accessorAhead? c.current with
  | none =>
    rw [bind_ok, run, h]
    simp
  | some kind =>
    rw [bind_of_ok (run.trans (by rw [h]))]
    simp

theorem accessorBody_ok {r : Option Block × Cursor} :
    accessorBody D c = .ok r ↔
      (c.current.kind = .punctuation .openBrace ∧
        ∃ body c₁, block D c = .ok (body, c₁) ∧ (some body, c₁) = r) ∨
      (c.current.kind = .punctuation .semicolon ∧ (none, c.advance) = r) := by
  by_cases empty : c.current.kind = .punctuation .semicolon
  · simp [accessorBody, empty]
  · simp [accessorBody, empty]

theorem accessor_ok {earlier : List Accessor} {r : Accessor × Cursor} :
    accessor D earlier c = .ok r ↔
      ∃ mods c₁ kind, modifiers c = .ok (mods, c₁) ∧ accessorAhead? c₁.current = some kind ∧
        earlier.any (·.kind == kind) = false ∧
        ∃ body c₂, accessorBody D c₁.advance = .ok (body, c₂) ∧
          (⟨c₂.spanFrom c.current.span, kind, mods, body⟩, c₂) = r := by
  simp [accessor]

theorem accessorStep_ok {read : List Accessor}
    {r : Turn (List Accessor) (List Accessor) × Cursor} :
    accessorStep D read c = .ok r ↔
      (c.current.kind = .punctuation .closeBrace ∧ (.done read.reverse, c) = r) ∨
      (c.current.kind ≠ .punctuation .closeBrace ∧
        ∃ a c₁, accessor D read c = .ok (a, c₁) ∧ (.again (a :: read), c₁) = r) := by
  simp [accessorStep]

theorem propertyRest_ok {header : Header} {type : TypeRef} {name : Ident}
    {r : Property × Cursor} :
    propertyRest D header type name c = .ok r ↔
      c.current.kind = .punctuation .openBrace ∧
      ∃ read c₁, accessors D c.advance = .ok (read, c₁) ∧ read.isEmpty = false ∧
        c₁.current.kind = .punctuation .closeBrace ∧
        (⟨header, type, name, read⟩, c₁.advance) = r := by
  simp [propertyRest]

theorem initializerRest_ok {header : Header} {r : Initializer × Cursor} :
    initializerRest D header c = .ok r ↔
      header.annotations.isEmpty = true ∧ header.modifiers.all (·.value == .isStatic) = true ∧
      ∃ body c₁, block D c = .ok (body, c₁) ∧ (⟨header.has .isStatic, body⟩, c₁) = r := by
  simp [initializerRest, and_assoc]

theorem variableMember_ok {header : Header} {start : Span} {type : TypeRef} {name : Ident}
    {r : Member × Cursor} :
    variableMember D header start type name c = .ok r ↔
      (∃ property c₁, propertyRest D header type name c = .ok (property, c₁) ∧
        (.property (c₁.spanFrom start) property, c₁) = r) ∨
      ((c.current.kind = .operator .assign ∨ c.current.kind = .punctuation .comma ∨
          c.current.kind = .punctuation .semicolon) ∧
        ∃ declared c₁, declarators D name c = .ok (declared, c₁) ∧
          c₁.current.kind = .punctuation .semicolon ∧
          (.field (c₁.advance.spanFrom start) ⟨header, type, declared⟩, c₁.advance) = r) := by
  rw [variableMember, kind_bind_ok]
  cases h : c.current.kind with
  | punctuation p => cases p <;> simp [propertyRest_ok, h]
  | operator o => cases o <;> simp [propertyRest_ok, h]
  | _ => simp [propertyRest_ok, h]

theorem typedMember_ok {header : Header} {start : Span} {r : Member × Cursor} :
    typedMember D header start c = .ok r ↔
      ∃ type c₁, typeRef D.typeRef c = .ok (type, c₁) ∧
        (((c₁.peek 1).kind = .punctuation .openParen ∧
          ∃ method c₂, methodRest D header (some type) (methodBody D) c₁ = .ok (method, c₂) ∧
            (.method (c₂.spanFrom start) method, c₂) = r) ∨
        ((c₁.peek 1).kind ≠ .punctuation .openParen ∧
          ∃ name c₂, identifier c₁ = .ok (name, c₂) ∧
            variableMember D header start type name c₂ = .ok r)) := by
  simp [typedMember]

/-- What a member is, when its header has been read. -/
inductive MemberSort where
  | initializer | type | void | constructor | typed
deriving DecidableEq

/-- What the member under the cursor is, when its header has been read. -/
def memberSort (className : String) (c : Cursor) : MemberSort :=
  match c.current.kind with
  | .punctuation .openBrace => .initializer
  | .keyword .kwClass | .keyword .kwInterface | .keyword .kwEnum => .type
  | .keyword .kwVoid => .void
  | .name text =>
    if sameWord text className && (c.peek 1).kind == .punctuation .openParen then .constructor
    else .typed
  | _ => .typed

theorem classMember_ok {className : String} {r : Member × Cursor} :
    classMember D className c = .ok r ↔
      ∃ read c₁, header D c = .ok (read, c₁) ∧
        let start := read.start.getD c₁.current.span
        match memberSort className c₁ with
        | .initializer => ∃ initializer c₂, initializerRest D read.header c₁ = .ok (initializer, c₂) ∧
          (.initializer (c₂.spanFrom start) initializer, c₂) = r
        | .type => ∃ type c₂, D.typeDeclaration read c₁ = .ok (type, c₂) ∧ (.type type, c₂) = r
        | .void => ∃ method c₂,
          methodRest D read.header none (methodBody D) c₁.advance = .ok (method, c₂) ∧
          (.method (c₂.spanFrom start) method, c₂) = r
        | .constructor => ∃ constructor c₂,
          constructorRest D read.header c₁ = .ok (constructor, c₂) ∧
          (.constructor (c₂.spanFrom start) constructor, c₂) = r
        | .typed => typedMember D read.header start c₁ = .ok r := by
  rw [classMember, bind_ok]
  refine exists_congr fun read => exists_congr fun c₁ => and_congr_right fun _ => ?_
  rw [declarationStart_bind_ok, kind_bind_ok]
  unfold memberSort
  cases h : c₁.current.kind with
  | punctuation p => cases p <;> simp
  | keyword k => cases k <;> simp
  | name text =>
    simp only [kindAt_bind_ok, ite_ok]
    by_cases constructor :
        (sameWord text className && (c₁.peek 1).kind == .punctuation .openParen) = true
    · simp [constructor]
    · simp [constructor]
  | _ => simp

theorem memberOrStray_ok {className : String} {r : Member × Cursor} :
    memberOrStray D className c = .ok r ↔
      (c.current.kind = .punctuation .semicolon ∧ (.stray c.current.span, c.advance) = r) ∨
      (c.current.kind ≠ .punctuation .semicolon ∧ classMember D className c = .ok r) := by
  simp [memberOrStray]

theorem interfaceMethod_ok {r : Spanned Method × Cursor} :
    interfaceMethod D c = .ok r ↔
      ∃ read c₁ type c₂ method c₃, header D c = .ok (read, c₁) ∧
        returnType D c₁ = .ok (type, c₂) ∧
        methodRest D read.header type noBody c₂ = .ok (method, c₃) ∧
        (⟨method, c₃.spanFrom (read.start.getD c₁.current.span)⟩, c₃) = r := by
  simp [interfaceMethod]

/-! ## Types -/

theorem braced_ok {α : Type} {item : Parser α} {r : List α × Cursor} :
    braced item c = .ok r ↔
      c.current.kind = .punctuation .openBrace ∧
      ∃ items c₁, itemsUntil (.punctuation .closeBrace) item c.advance = .ok (items, c₁) ∧
        c₁.current.kind = .punctuation .closeBrace ∧ (items, c₁.advance) = r := by
  simp [braced]

theorem typesBehind_ok {k : Keyword} {r : List TypeRef × Cursor} :
    typesBehind D k c = .ok r ↔
      (c.current.kind = .keyword k ∧ commaSeparated (typeRef D.typeRef) c.advance = .ok r) ∨
      (c.current.kind ≠ .keyword k ∧ ([], c) = r) := by
  simp [typesBehind]

theorem baseType_ok {r : Option TypeRef × Cursor} :
    baseType D c = .ok r ↔
      (c.current.kind = .keyword .kwExtends ∧
        ∃ type c₁, typeRef D.typeRef c.advance = .ok (type, c₁) ∧ (some type, c₁) = r) ∨
      (c.current.kind ≠ .keyword .kwExtends ∧ (none, c) = r) := by
  simp [baseType]

theorem classHead_ok {header : Header} {r : ClassHead × Cursor} :
    classHead D header c = .ok r ↔
      ∃ name c₁ base c₂ interfaces c₃, identifier c = .ok (name, c₁) ∧
        baseType D c₁ = .ok (base, c₂) ∧
        typesBehind D .kwImplements c₂ = .ok (interfaces, c₃) ∧
        (⟨header, name, base, interfaces⟩, c₃) = r := by
  simp [classHead]

theorem interfaceHead_ok {header : Header} {r : InterfaceHead × Cursor} :
    interfaceHead D header c = .ok r ↔
      ∃ name c₁ bases c₂, identifier c = .ok (name, c₁) ∧
        typesBehind D .kwExtends c₁ = .ok (bases, c₂) ∧ (⟨header, name, bases⟩, c₂) = r := by
  simp [interfaceHead]

theorem constantStep_ok {read : List Ident × Bool}
    {r : Turn (List Ident × Bool) (List Ident × Bool) × Cursor} :
    constantStep read c = .ok r ↔
      (c.current.kind = .punctuation .closeBrace ∧
        (.done (read.1.reverse, read.2), c) = r) ∨
      (c.current.kind ≠ .punctuation .closeBrace ∧
        ∃ constant c₁, identifier c = .ok (constant, c₁) ∧
          ((c₁.current.kind = .punctuation .comma ∧
            (.again (constant :: read.1, true), c₁.advance) = r) ∨
          (c₁.current.kind ≠ .punctuation .comma ∧
            (.done ((constant :: read.1).reverse, false), c₁) = r))) := by
  obtain ⟨constants, comma⟩ := read
  simp [constantStep]

theorem enumRest_ok {header : Header} {r : EnumDeclaration × Cursor} :
    enumRest header c = .ok r ↔
      ∃ name c₁, identifier c = .ok (name, c₁) ∧ c₁.current.kind = .punctuation .openBrace ∧
        ∃ constants c₂, enumConstants c₁.advance = .ok (constants, c₂) ∧
          c₂.current.kind = .punctuation .closeBrace ∧
          (⟨header, name, constants.1, constants.2⟩, c₂.advance) = r := by
  simp [enumRest]

theorem typeDeclaration_ok {read : ReadHeader} {r : TypeDeclaration × Cursor} :
    typeDeclaration D read c = .ok r ↔
      (c.current.kind = .keyword .kwClass ∧
        ∃ head c₁ members c₂, classHead D read.header c.advance = .ok (head, c₁) ∧
          braced (memberOrStray D head.name.value) c₁ = .ok (members, c₂) ∧
          (.classType (c₂.spanFrom (read.start.getD c.current.span)) head members, c₂) = r) ∨
      (c.current.kind = .keyword .kwInterface ∧
        ∃ head c₁ methods c₂, interfaceHead D read.header c.advance = .ok (head, c₁) ∧
          braced (interfaceMethod D) c₁ = .ok (methods, c₂) ∧
          (.interfaceType (c₂.spanFrom (read.start.getD c.current.span)) head methods, c₂) = r) ∨
      (c.current.kind = .keyword .kwEnum ∧
        ∃ declaration c₁, enumRest read.header c.advance = .ok (declaration, c₁) ∧
          (.enumType (c₁.spanFrom (read.start.getD c.current.span)) declaration, c₁) = r) := by
  rw [typeDeclaration, declarationStart_bind_ok, kind_bind_ok]
  cases c.current.kind with
  | keyword k => cases k <;> simp
  | _ => simp

/-! ## Triggers and files -/

@[simp] theorem anyWord_bind_ok {expected : List String} {β : Type} {f : String → Parser β}
    {r : β × Cursor} :
    (anyWord expected >>= f) c = .ok r ↔
      ∃ word, c.current.kind.word? = some word ∧ f word c.advance = .ok r := by
  cases h : c.current.kind.word? with
  | none =>
    have run : anyWord expected c = fail expected c := by simp only [anyWord, h]
    rw [bind_ok, run]
    simp
  | some word =>
    have run : anyWord expected c = .ok (word, c.advance) := by simp only [anyWord, h]
    rw [bind_of_ok run]
    simp

theorem triggerEvent_ok {r : Spanned TriggerEvent × Cursor} :
    triggerEvent c = .ok r ↔
      ∃ timing operation event, c.current.kind.word? = some timing ∧
        c.advance.current.kind.word? = some operation ∧
        TriggerEvent.ofWords? timing operation = some event ∧
        (⟨event, c.advance.advance.spanFrom c.current.span⟩, c.advance.advance) = r := by
  rw [triggerEvent, here_bind_ok, anyWord_bind_ok]
  have known : ∀ {timing operation event}, TriggerEvent.ofWords? timing operation = some event →
      (TriggerTiming.ofWord? timing).isNone = false := by
    intro timing operation event h
    unfold TriggerEvent.ofWords? at h
    cases ht : TriggerTiming.ofWord? timing <;> simp [ht] at h ⊢
  constructor
  · rintro ⟨timing, first, run⟩
    rcases ite_ok.mp run with ⟨_, run⟩ | ⟨_, run⟩
    · simp at run
    · obtain ⟨operation, second, run⟩ := anyWord_bind_ok.mp run
      rw [spanFrom_bind_ok] at run
      cases event : TriggerEvent.ofWords? timing operation with
      | none => simp [event] at run
      | some e =>
        rw [event] at run
        exact ⟨timing, operation, e, first, second, event, pure_ok.mp run⟩
  · rintro ⟨timing, operation, e, first, second, event, run⟩
    refine ⟨timing, first, ite_ok.mpr (.inr ⟨by simp [known event], ?_⟩)⟩
    refine anyWord_bind_ok.mpr ⟨operation, second, ?_⟩
    rw [spanFrom_bind_ok, event]
    exact pure_ok.mpr run

theorem triggerDeclaration_ok {r : Declaration × Cursor} :
    triggerDeclaration D c = .ok r ↔
      c.current.kind = .keyword .kwTrigger ∧
      ∃ name c₁, identifier c.advance = .ok (name, c₁) ∧
        c₁.current.kind.spells .kwOn = true ∧
        ∃ object c₂, identifier c₁.advance = .ok (object, c₂) ∧
          c₂.current.kind = .punctuation .openParen ∧
          ∃ events c₃, commaSeparated triggerEvent c₂.advance = .ok (events, c₃) ∧
            c₃.current.kind = .punctuation .closeParen ∧
            ∃ body c₄, block D c₃.advance = .ok (body, c₄) ∧
              (.trigger (c₄.spanFrom c.current.span) ⟨name, object, events, body⟩, c₄) = r := by
  simp [triggerDeclaration]

theorem declaration_ok {r : Declaration × Cursor} :
    declaration D c = .ok r ↔
      (c.current.kind = .keyword .kwTrigger ∧ triggerDeclaration D c = .ok r) ∨
      (c.current.kind ≠ .keyword .kwTrigger ∧
        ∃ read c₁ type c₂, header D c = .ok (read, c₁) ∧
          typeDeclaration D read c₁ = .ok (type, c₂) ∧ (.type type, c₂) = r) := by
  simp [declaration]

/-- The span from the given one to the token before the cursor. -/
def spanThrough (c : Cursor) (start : Span) : Span :=
  match c.previous? with
  | some last => start.merge last.span
  | none => start

theorem throughPrevious_eq (start : Span) :
    throughPrevious start c = .ok (spanThrough c start, c) := by
  unfold throughPrevious spanThrough
  cases c.previous? <;> rfl

@[simp] theorem throughPrevious_bind_ok {start : Span} {β : Type} {f : Span → Parser β}
    {r : β × Cursor} :
    (throughPrevious start >>= f) c = .ok r ↔ f (spanThrough c start) c = .ok r :=
  bind_of_ok (throughPrevious_eq start)

@[simp] theorem throughPrevious_map_ok {start : Span} {β : Type} {f : Span → β}
    {r : β × Cursor} :
    (f <$> throughPrevious start) c = .ok r ↔ (f (spanThrough c start), c) = r := by
  rw [← bind_pure_comp, throughPrevious_bind_ok, pure_ok]

/-- Whether a file declares nothing. -/
def nothingAhead (c : Cursor) : Bool :=
  c.atEnd || c.current.kind == .punctuation .semicolon

theorem declarationAndSemicolons_ok {r : (Declaration × Nat) × Cursor} :
    declarationAndSemicolons D c = .ok r ↔
      (nothingAhead c = true ∧ ∃ count c₁, semicolons c = .ok (count, c₁) ∧
        ((.nothing (spanThrough c₁ c.current.span), count), c₁) = r) ∨
      (nothingAhead c = false ∧ ∃ found c₁ count c₂, declaration D c = .ok (found, c₁) ∧
        semicolons c₁ = .ok (count, c₂) ∧ ((found, count), c₂) = r) := by
  rw [declarationAndSemicolons, here_bind_ok, get_bind_ok]
  by_cases ends : c.atEnd = true
  · simp [nothingAhead, ends]
  · simp [nothingAhead, ends]

theorem compilationUnit_ok {r : CompilationUnit × Cursor} :
    compilationUnit D c = .ok r ↔
      ∃ found c₁, declarationAndSemicolons D c = .ok (found, c₁) ∧ c₁.atEnd = true ∧
        (⟨spanThrough c₁ c.current.span, found.1, found.2⟩, c₁) = r := by
  simp [compilationUnit]

end Apex.Grammar

namespace Apex

theorem parse_ok {tokens : List Token} {unit : CompilationUnit} :
    parse tokens = .ok unit ↔
      (Cursor.ofTokens tokens).strayAfterEnd? = none ∧
        ∃ c', Grammar.compilationUnit (Grammar.levels maxNesting) (Cursor.ofTokens tokens) =
          .ok (unit, c') := by
  unfold parse parseWithin parseWith
  dsimp only
  cases (Cursor.ofTokens tokens).strayAfterEnd? with
  | some stray => simp
  | none =>
    cases Grammar.compilationUnit (Grammar.levels maxNesting) (Cursor.ofTokens tokens) with
    | error e => simp [Except.map]
    | ok r => simp [Except.map, Prod.ext_iff]

end Apex
