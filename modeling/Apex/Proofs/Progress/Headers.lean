import Apex.Grammar.Header
import Apex.Grammar.Type
import Apex.Proofs.Progress.Parsers

/-!
# Types and headers make progress

Types, modifiers and annotations are read token by token, given that the constructs one level down
are.
-/

namespace Apex

open Apex.Parser

/-- The constructs one level down read a token wherever they succeed, and looking ahead moves
nowhere beyond an end. -/
structure Deeper.Progresses (D : Deeper) : Prop where
  typeRef : Reads D.typeRef
  annotationMark : Reads D.annotationMark
  annotationValue : Reads D.annotationValue
  assignment : Reads D.assignment
  ternary : Reads D.ternary
  unary : Reads D.unary
  statement : Reads D.statement
  typeDeclaration : ∀ read, Reads (D.typeDeclaration read)
  ahead : ∀ look, Moves (D.ahead look)

namespace Grammar

variable {D : Deeper} {c : Cursor}

/-! ## Types -/

theorem segmentStep_reads (segments : List Ident) : ReadsIf Turn.IsAgain (segmentStep segments) := by
  refine (Moves.isAt _).bind fun _ => (Moves.kindAt 1).bind fun _ => .ite ?_ (.done _)
  exact Moves.advance.bind fun _ => .againCons identifier_reads

theorem typeSegments_reads : Reads typeSegments :=
  Reads.bind identifier_reads fun first => .iterate segmentStep_reads [first]

theorem typeArguments_moves {argument : Parser TypeRef} (h : Reads argument) :
    Moves (typeArguments argument) := by
  refine .acceptBind ?_ (Moves.pure _)
  refine (commaSeparated_reads h).moves.bind fun _ => ?_
  exact .acceptBind (Moves.pure _) (.fail _ rfl)

theorem bracketsStep_reads (count : Nat) : ReadsIf Turn.IsAgain (bracketsStep count) := by
  intro c
  by_cases ahead : BracketsAhead c
  · rw [bracketsStep_ok.mpr (.inl ⟨ahead, rfl⟩)]
    refine .ok (c.passes_advance.trans c.advance.passes_advance) fun _ => ?_
    exact Nat.lt_of_lt_of_le (Cursor.before_advance (isEnd_of_kind ahead.1 nofun)).position
      c.advance.upto_advance.position
  · rw [bracketsStep_ok.mpr (.inr ⟨ahead, rfl⟩)]
    exact .ok (.refl c) False.elim

theorem arrayBrackets_moves : Moves arrayBrackets := .iterate bracketsStep_reads 0

theorem elementType_reads {argument : Parser TypeRef} (h : Reads argument) :
    Reads (elementType argument) := by
  refine Moves.here.bind fun _ => typeSegments_reads.bind fun _ => ?_
  exact (typeArguments_moves h).bind fun _ => (Moves.spanFrom _).bind fun _ => Moves.pure _

theorem typeRef_reads {argument : Parser TypeRef} (h : Reads argument) :
    Reads (typeRef argument) := by
  refine Moves.here.bind fun _ => (elementType_reads h).bind fun _ => ?_
  exact arrayBrackets_moves.bind fun _ => (Moves.spanFrom _).bind fun _ => Moves.pure _

/-! ## Modifiers -/

theorem sharingModifier_reads (m : Modifier) (inside : c.current.isEnd = false) :
    ReadsFrom c (fun found => found.isSome = true) (sharingModifier m) := by
  have rest (start : Span) :
      Moves (do return some ⟨m, ← spanFrom start⟩ : Parser (Option (Spanned Modifier))) :=
    (Moves.spanFrom start).bind fun _ => Moves.pure _
  exact ReadsFrom.skip (n := 2) (by decide) inside fun _ => rest c.current.span

theorem modifier?_reads : ReadsIf (fun found => found.isSome = true) modifier? := by
  refine (Moves.kindAt 1).bind fun next => .kindBind fun c => ?_
  split
  · next h =>
    refine .ite (fun _ => sharingModifier_reads _ (isEnd_of_kind h nofun)) fun _ => ?_
    exact .of (Moves.advance.bind fun _ => .fail _ rfl)
  · next h =>
    split
    · exact .next (isEnd_of_kind h nofun) fun _ => Moves.pure _
    · exact .pure _ nofun
  · have named {w : Keyword} {t : Bool} (h : (t && c.current.kind.spells w) = true) :
        c.current.isEnd = false :=
      Token.isEnd_of_holds (·.spells w) (Bool.and_eq_true_iff.mp h).2 rfl
    refine .ite (fun h => sharingModifier_reads _ (named h)) fun _ => ?_
    exact .ite (fun h => sharingModifier_reads _ (named h)) fun _ => .pure _ nofun

theorem checkFresh_moves (earlier : List (Spanned Modifier)) (m : Spanned Modifier) :
    Moves (checkFresh earlier m) := .ite (.throw _ rfl) (Moves.pure _)

theorem modifierStep_reads (read : List (Spanned Modifier)) :
    ReadsIf Turn.IsAgain (modifierStep read) := by
  refine modifier?_reads.bind fun found => ?_
  cases found with
  | some m => exact (checkFresh_moves read m).bind fun _ => .pure _ fun both => both.2 rfl
  | none => exact .pure _ And.left

theorem modifiers_moves : Moves modifiers := .iterate modifierStep_reads []

/-! ## Annotations -/

theorem checkValueEnds_moves (value : Span) (followers : List Punctuation) :
    Moves (checkValueEnds value followers) :=
  Moves.current.bind fun _ => .ite (.throw _ rfl) (Moves.pure _)

theorem keyAhead_moves : Moves keyAhead :=
  Moves.kind.bind fun _ => (Moves.kindAt 1).bind fun _ => Moves.pure _

theorem literalValue_reads : Reads literalValue := by
  refine Moves.here.bind fun start => .isAtBind fun c => ?_
  have inside {v : Literal}
      (h : (if c.current.kind == .operator .minus then
          negatedLiteral? (c.peek (if c.current.kind == .operator .minus then 1 else 0)).kind
        else annotationLiteral? (c.peek (if c.current.kind == .operator .minus then 1 else 0)).kind) =
          some v) : c.current.isEnd = false := by
    by_cases negative : c.current.kind = .operator .minus
    · exact isEnd_of_kind negative nofun
    · have other : (c.current.kind == .operator .minus) = false := by simpa using negative
      simp only [other, Bool.false_eq_true, if_false, c.peek_zero] at h
      exact Token.isEnd_of_holds (fun k => (annotationLiteral? k).isSome) (by rw [h]; rfl) rfl
  refine .kindAtBind ?_
  dsimp only
  split
  · next literal found =>
    exact .skip (Nat.succ_pos _) (inside found) fun _ =>
      (Moves.spanFrom _).bind fun _ => Moves.pure _
  · exact .of (Moves.get.bind fun _ => .throw _ rfl)

theorem arrayValue_reads (hD : D.Progresses) : Reads (arrayValue D) :=
  hD.annotationValue.bind fun _ => (checkValueEnds_moves _ _).bind fun _ => Moves.pure _

theorem arrayValues_moves (hD : D.Progresses) : Moves (arrayValues D) :=
  (Moves.isAt _).bind fun _ => .ite (Moves.pure _) (commaSeparated_reads (arrayValue_reads hD)).moves

theorem annotationValue_reads (hD : D.Progresses) : Reads (annotationValue D) := by
  refine Moves.here.bind fun _ => (Moves.isAt _).bind fun _ => .ite ?_ ?_
  · exact hD.annotationMark.bind fun _ => Moves.pure _
  · refine .acceptBind ?_ literalValue_reads
    refine (arrayValues_moves hD).bind fun _ => (Reads.expect _).moves.bind fun _ => ?_
    exact (Moves.spanFrom _).bind fun _ => Moves.pure _

theorem keyedElement_reads (hD : D.Progresses) : Reads (keyedElement D) := by
  refine identifier_reads.bind fun _ => (Reads.expect _).moves.bind fun _ => ?_
  refine (annotationValue_reads hD).moves.bind fun _ => keyAhead_moves.bind fun _ => ?_
  refine Moves.check (checkValueEnds_moves _ _) ?_
  exact (ReadsIf.accept _).moves.bind fun _ => Moves.pure _

theorem annotationElements_moves (hD : D.Progresses) : Moves (annotationElements D) := by
  refine keyAhead_moves.bind fun _ => .ite (itemsUntil_moves _ (keyedElement_reads hD)) ?_
  refine (Moves.isAt _).bind fun _ => .ite (Moves.pure _) ?_
  refine (annotationValue_reads hD).moves.bind fun _ => ?_
  exact (checkValueEnds_moves _ _).bind fun _ => Moves.pure _

theorem annotation_reads (hD : D.Progresses) : Reads (annotationMark D) := by
  refine (Reads.expect _).bind fun _ => identifier_reads.moves.bind fun _ => ?_
  have close (name : Ident) (elements : List AnnotationElement) (parenthesized : Bool)
      (start : Span) : Moves
        (do return .mk (← spanFrom start) name elements parenthesized : Parser AnnotationMark) :=
    (Moves.spanFrom _).bind fun _ => Moves.pure _
  refine .acceptBind ?_ (close _ _ _ _)
  refine (annotationElements_moves hD).bind fun _ => ?_
  exact (Reads.expect _).moves.bind fun _ => close _ _ _ _

/-! ## Headers -/

theorem headerStep_reads (hD : D.Progresses) (read : ReadHeader) :
    ReadsIf Turn.IsAgain (headerStep D read) := by
  obtain ⟨⟨annotations, modifiers⟩, start⟩ := read
  refine (Moves.isAt _).bind fun _ => .ite ?_ ?_
  · exact (annotation_reads hD).bind fun _ => Moves.pure _
  · refine modifier?_reads.bind fun found => ?_
    cases found with
    | some m => exact (checkFresh_moves modifiers m).bind fun _ => .pure _ fun both => both.2 rfl
    | none => exact .pure _ And.left

theorem header_moves (hD : D.Progresses) : Moves (header D) := .iterate (headerStep_reads hD) _

theorem declarationStart_moves (read : ReadHeader) : Moves (declarationStart read) :=
  Moves.here.bind fun _ => Moves.pure _

end Grammar

end Apex
