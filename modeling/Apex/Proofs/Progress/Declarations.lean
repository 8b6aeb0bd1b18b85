import Apex.Grammar.Declaration
import Apex.Proofs.Progress.Statements

/-!
# Declarations make progress

The members of classes, types and triggers are read token by token, given that the constructs one
level down are.
-/

namespace Apex.Grammar

open Apex.Parser

variable {D : Deeper} {c : Cursor}

/-! ## Members -/

theorem parameter_reads (hD : D.Progresses) : Reads (parameter D) := by
  refine Moves.here.bind fun _ => modifiers_moves.bind fun _ => ?_
  refine (typeRef_reads hD.typeRef).bind fun _ => identifier_reads.moves.bind fun _ => ?_
  exact (Moves.spanFrom _).bind fun _ => Moves.pure _

theorem parameters_reads (hD : D.Progresses) : Reads (parameters D) := by
  have list : Moves (parameterList D) :=
    (Moves.isAt _).bind fun _ => .ite (Moves.pure _) (commaSeparated_reads (parameter_reads hD)).moves
  refine (Reads.expect _).bind fun _ => list.bind fun _ => ?_
  exact (Reads.expect _).moves.bind fun _ => Moves.pure _

theorem methodBody_reads (hD : D.Progresses) : Reads (methodBody D) := by
  refine (Moves.isAt _).bind fun _ => .ite ?_ (.acceptBind (Moves.pure _) (.fail _ rfl))
  exact (block_reads hD).bind fun _ => Moves.pure _

theorem noBody_reads : Reads noBody := (Reads.expect _).bind fun _ => Moves.pure _

theorem methodRest_reads (hD : D.Progresses) (header : Header) (type : Option TypeRef)
    {body : Parser (Option Block)} (hb : Reads body) :
    Reads (methodRest D header type body) :=
  identifier_reads.bind fun _ => (parameters_reads hD).moves.bind fun _ =>
    hb.moves.bind fun _ => Moves.pure _

theorem returnType_reads (hD : D.Progresses) : Reads (returnType D) :=
  .acceptBind (Moves.pure _) ((typeRef_reads hD.typeRef).bind fun _ => Moves.pure _)

theorem constructorRest_reads (hD : D.Progresses) (header : Header) :
    Reads (constructorRest D header) :=
  identifier_reads.bind fun _ => (parameters_reads hD).moves.bind fun _ =>
    (block_reads hD).moves.bind fun _ => Moves.pure _

theorem accessorBody_reads (hD : D.Progresses) : Reads (accessorBody D) := by
  refine .acceptBind (Moves.pure _) ((Moves.isAt _).bind fun _ => .ite ?_ (.fail _ rfl))
  exact (block_reads hD).bind fun _ => Moves.pure _

theorem accessorKind_moves : Moves accessorKind :=
  Moves.kind.bind fun _ => .ite (Moves.pure _) (.ite (Moves.pure _) (.fail _ rfl))

theorem accessor_reads (hD : D.Progresses) (earlier : List Accessor) :
    Reads (accessor D earlier) := by
  refine Moves.here.bind fun _ => modifiers_moves.bind fun _ => accessorKind_moves.bind fun _ => ?_
  refine Moves.check (.fail _ rfl) (Moves.advance.bind fun _ => ?_)
  exact (accessorBody_reads hD).bind fun _ => (Moves.spanFrom _).bind fun _ => Moves.pure _

theorem accessorStep_reads (hD : D.Progresses) (read : List Accessor) :
    ReadsIf Turn.IsAgain (accessorStep D read) :=
  (Moves.isAt _).bind fun _ => .ite (.done _) (.againCons (accessor_reads hD read))

theorem accessors_moves (hD : D.Progresses) : Moves (accessors D) :=
  .iterate (accessorStep_reads hD) []

theorem propertyRest_reads (hD : D.Progresses) (header : Header) (type : TypeRef) (name : Ident) :
    Reads (propertyRest D header type name) := by
  refine (Reads.expect _).bind fun _ => (accessors_moves hD).bind fun _ => ?_
  exact Moves.check (.fail _ rfl) ((Reads.expect _).moves.bind fun _ => Moves.pure _)

theorem initializerRest_reads (hD : D.Progresses) (header : Header) :
    Reads (initializerRest D header) := by
  unfold initializerRest
  exact Moves.check (.fail _ rfl) ((block_reads hD).bind fun _ => Moves.pure _)

theorem variableMember_reads (hD : D.Progresses) (header : Header) (start : Span) (type : TypeRef)
    (name : Ident) : Reads (variableMember D header start type name) := by
  have field : Reads (do
      let declarators ← declarators D name
      let _ ← expect (.punctuation .semicolon)
      return .field (← spanFrom start) ⟨header, type, declarators⟩ : Parser Member) :=
    (declarators_moves hD name).bind fun _ => (Reads.expect _).bind fun _ =>
      (Moves.spanFrom _).bind fun _ => Moves.pure _
  refine Moves.kind.bind fun _ => ?_
  split
  · refine (propertyRest_reads hD _ _ _).bind fun _ => ?_
    exact (Moves.spanFrom _).bind fun _ => Moves.pure _
  · exact field
  · exact field
  · exact field
  · exact .fail _ rfl

theorem typedMember_reads (hD : D.Progresses) (header : Header) (start : Span) :
    Reads (typedMember D header start) := by
  refine (typeRef_reads hD.typeRef).bind fun _ => (Moves.kindAt 1).bind fun _ => .ite ?_ ?_
  · refine (methodRest_reads hD _ _ (methodBody_reads hD)).moves.bind fun _ => ?_
    exact (Moves.spanFrom _).bind fun _ => Moves.pure _
  · exact identifier_reads.moves.bind fun _ => (variableMember_reads hD _ _ _ _).moves

theorem classMember_reads (hD : D.Progresses) (className : String) :
    Reads (classMember D className) := by
  refine (header_moves hD).bind fun read => (declarationStart_moves read).bind fun start => ?_
  have close {α : Type} {p : Parser α} (h : Reads p) (make : Span → α → Member) :
      Reads (do
        let x ← p
        return make (← spanFrom start) x : Parser Member) :=
    h.bind fun _ => (Moves.spanFrom _).bind fun _ => Moves.pure _
  have type : Reads (do return .type (← D.typeDeclaration read) : Parser Member) :=
    (hD.typeDeclaration read).bind fun _ => Moves.pure _
  refine Moves.kind.bind fun _ => ?_
  split
  · exact close (initializerRest_reads hD _) .initializer
  · exact type
  · exact type
  · exact type
  · exact Moves.advance.bind fun _ => close (methodRest_reads hD _ _ (methodBody_reads hD)) .method
  · refine (Moves.kindAt 1).bind fun _ => .ite ?_ (typedMember_reads hD _ _)
    exact close (constructorRest_reads hD _) .constructor
  · exact typedMember_reads hD _ _

theorem memberOrStray_reads (hD : D.Progresses) (className : String) :
    Reads (memberOrStray D className) := by
  refine .isAtBind fun c => .ite (fun semicolon => ?_) fun _ => .of (classMember_reads hD className)
  exact .next (isEnd_of_kind (by simpa using semicolon) (by simp)) fun _ => Moves.pure _

theorem interfaceMethod_reads (hD : D.Progresses) : Reads (interfaceMethod D) := by
  refine (header_moves hD).bind fun read => (declarationStart_moves read).bind fun _ => ?_
  refine (returnType_reads hD).bind fun _ => (methodRest_reads hD _ _ noBody_reads).moves.bind fun _ => ?_
  exact (Moves.spanFrom _).bind fun _ => Moves.pure _

/-! ## Types -/

theorem braced_reads {α : Type} {item : Parser α} (h : Reads item) : Reads (braced item) := by
  refine (Reads.expect _).bind fun _ => (itemsUntil_moves _ h).bind fun _ => ?_
  exact (Reads.expect _).moves.bind fun _ => Moves.pure _

theorem typesBehind_moves (hD : D.Progresses) (k : Keyword) : Moves (typesBehind D k) :=
  .acceptBind (commaSeparated_reads (typeRef_reads hD.typeRef)).moves (Moves.pure _)

theorem baseType_moves (hD : D.Progresses) : Moves (baseType D) :=
  .acceptBind ((typeRef_reads hD.typeRef).map fun _ => False.elim) (Moves.pure _)

theorem classHead_reads (hD : D.Progresses) (header : Header) : Reads (classHead D header) :=
  identifier_reads.bind fun _ => (baseType_moves hD).bind fun _ =>
    (typesBehind_moves hD _).bind fun _ => Moves.pure _

theorem interfaceHead_reads (hD : D.Progresses) (header : Header) :
    Reads (interfaceHead D header) :=
  identifier_reads.bind fun _ => (typesBehind_moves hD _).bind fun _ => Moves.pure _

theorem constantStep_reads (read : List Ident × Bool) :
    ReadsIf Turn.IsAgain (constantStep read) := by
  refine (Moves.isAt _).bind fun _ => .ite (.done _) ?_
  exact identifier_reads.bind fun _ => (ReadsIf.accept _).moves.bind fun _ =>
    .ite (Moves.pure _) (Moves.pure _)

theorem enumRest_reads (header : Header) : Reads (enumRest header) := by
  refine identifier_reads.bind fun _ => (Reads.expect _).moves.bind fun _ => ?_
  refine (Moves.iterate constantStep_reads _).bind fun _ => ?_
  exact (Reads.expect _).moves.bind fun _ => Moves.pure _

theorem typeDeclaration_reads (hD : D.Progresses) (read : ReadHeader) :
    Reads (typeDeclaration D read) := by
  refine (declarationStart_moves read).bind fun start => Moves.kind.bind fun _ => ?_
  split
  · refine Moves.advance.bind fun _ => (classHead_reads hD _).bind fun _ => ?_
    refine (braced_reads (memberOrStray_reads hD _)).moves.bind fun _ => ?_
    exact (Moves.spanFrom _).bind fun _ => Moves.pure _
  · refine Moves.advance.bind fun _ => (interfaceHead_reads hD _).bind fun _ => ?_
    refine (braced_reads (interfaceMethod_reads hD)).moves.bind fun _ => ?_
    exact (Moves.spanFrom _).bind fun _ => Moves.pure _
  · refine Moves.advance.bind fun _ => (enumRest_reads _).bind fun _ => ?_
    exact (Moves.spanFrom _).bind fun _ => Moves.pure _
  · exact .fail _ rfl

/-! ## Triggers -/

theorem anyWord_reads (expected : List String) (some : expected.isEmpty = false) :
    Reads (anyWord expected) := by
  intro c
  unfold anyWord
  split
  · next word found =>
    exact .advanced (Token.isEnd_of_holds (fun k => k.word?.isSome) (by rw [found]; rfl) rfl)
  · exact .error some

theorem triggerEvent_reads : Reads triggerEvent := by
  refine Moves.here.bind fun _ => (anyWord_reads _ rfl).bind fun _ => ?_
  refine Moves.check (.throw _ rfl) ((anyWord_reads _ rfl).moves.bind fun _ => ?_)
  refine (Moves.spanFrom _).bind fun _ => ?_
  split
  · exact Moves.pure _
  · exact .throw _ rfl

theorem triggerDeclaration_reads (hD : D.Progresses) : Reads (triggerDeclaration D) := by
  refine (Reads.expect _).bind fun _ => identifier_reads.moves.bind fun _ => ?_
  refine (Reads.expectWord _).moves.bind fun _ => identifier_reads.moves.bind fun _ => ?_
  refine (Reads.expect _).moves.bind fun _ => ?_
  refine (commaSeparated_reads triggerEvent_reads).moves.bind fun _ => ?_
  refine (Reads.expect _).moves.bind fun _ => (block_reads hD).moves.bind fun _ => ?_
  exact (Moves.spanFrom _).bind fun _ => Moves.pure _

theorem declaration_reads (hD : D.Progresses) : Reads (declaration D) := by
  refine (Moves.isAt _).bind fun _ => .ite (triggerDeclaration_reads hD) ?_
  refine (header_moves hD).bind fun read => ?_
  exact (typeDeclaration_reads hD read).bind fun _ => Moves.pure _

end Apex.Grammar
