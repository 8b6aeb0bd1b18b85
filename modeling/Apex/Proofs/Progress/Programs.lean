import Apex.Grammar.Unit
import Apex.Proofs.Progress.Declarations

/-!
# Parsing ends

Every loop of the grammar reads a token in each step but its last, so none is ever broken off by
the limit that keeps it finite: it comes out as it would without one. Constructs contain each other
level by level, and below the last level nothing is read. The look ahead for a cast passes a token
on each of its ways round. So a program is parsed to its end or to an error, and on the way no end
of a file is passed over.
-/

namespace Apex

namespace Grammar

open Apex.Parser

variable {D : Deeper}

/-! ## Levels -/

theorem progresses_bottom : Deeper.bottom.Progresses where
  typeRef := .fail _ rfl
  annotationMark := .fail _ rfl
  annotationValue := .fail _ rfl
  assignment := .fail _ rfl
  ternary := .fail _ rfl
  unary := .fail _ rfl
  statement := .fail _ rfl
  typeDeclaration _ := .fail _ rfl
  ahead _ := .matchesAhead _

theorem progresses_above (hD : D.Progresses) : (above D).Progresses where
  typeRef := typeRef_reads hD.typeRef
  annotationMark := annotation_reads hD
  annotationValue := annotationValue_reads hD
  assignment := assignment_reads hD
  ternary := ternary_reads hD
  unary := unary_reads hD
  statement := statement_reads hD
  typeDeclaration := typeDeclaration_reads hD
  ahead _ := .matchesAhead _

theorem progresses_levels (depth : Nat) : (levels depth).Progresses := by
  induction depth with
  | zero => exact progresses_bottom
  | succ depth ih => exact progresses_above ih

theorem throughPrevious_moves (start : Span) : Moves (throughPrevious start) := by
  intro c
  unfold throughPrevious
  split
  · exact .ok (.refl c) False.elim
  · exact .ok (.refl c) False.elim

theorem declarationAndSemicolons_moves (hD : D.Progresses) :
    Moves (declarationAndSemicolons D) := by
  have nothing (start : Span) : Moves (do
      let count ← semicolons
      return (.nothing (← throughPrevious start), count) : Parser (Declaration × Nat)) :=
    semicolons_moves.bind fun _ => (throughPrevious_moves start).bind fun _ => Moves.pure _
  have found : Moves (do
      let found ← declaration D
      return (found, ← semicolons) : Parser (Declaration × Nat)) :=
    (declaration_reads hD).moves.bind fun _ => semicolons_moves.bind fun _ => Moves.pure _
  refine Moves.here.bind fun start => Moves.get.bind fun _ => (Moves.isAt _).bind fun _ => ?_
  exact .ite (nothing start) found

theorem compilationUnit_moves (hD : D.Progresses) : Moves (compilationUnit D) := by
  refine Moves.here.bind fun start => (declarationAndSemicolons_moves hD).bind fun _ => ?_
  refine Moves.get.bind fun _ => Moves.check (.fail _ rfl) ?_
  exact (throughPrevious_moves start).bind fun _ => Moves.pure _

/-! ## Loops -/

/-- The loops of the grammar, by their steps. -/
inductive Loop (D : Deeper) : {σ β : Type} → (σ → Parser (Turn σ β)) → Prop where
  /-- The parts of a dotted type name. -/
  | segments : Loop D segmentStep
  /-- Type arguments. -/
  | typeArguments : Loop D (commaStep D.typeRef)
  /-- Pairs of array brackets. -/
  | brackets : Loop D bracketsStep
  /-- Modifiers. -/
  | modifiers : Loop D modifierStep
  /-- Values of an annotation's array. -/
  | arrayValues : Loop D (commaStep (arrayValue D))
  /-- Arguments of an annotation with their keys. -/
  | annotationElements : Loop D (untilStep (.punctuation .closeParen) (keyedElement D))
  /-- Annotations and modifiers. -/
  | header : Loop D (headerStep D)
  /-- Expressions with commas between them. -/
  | expressions : Loop D (commaStep (expression D))
  /-- Entries of a map. -/
  | mapEntries : Loop D (commaStep (mapEntry D))
  /-- Operations behind an operand. -/
  | postfixChain : Loop D (postfixStep D)
  /-- Operators of a level, with their right operands. -/
  | binaryChain (level : BinaryLevel) (tighter : List BinaryLevel) :
    Loop D (binaryStep D level (binaryChain D tighter))
  /-- Statements of a block. -/
  | statements : Loop D (untilStep (.punctuation .closeBrace) (blockItem D))
  /-- Declared variables. -/
  | declarators : Loop D (commaStep (declarator D))
  /-- Links of a chain of conditionals. -/
  | elseChain : Loop D (elseStep D)
  /-- Clauses of a `try` statement. -/
  | catches : Loop D (whileStep (catchClause? D))
  /-- Parameters. -/
  | parameters : Loop D (commaStep (parameter D))
  /-- Accessors of a property. -/
  | accessors : Loop D (accessorStep D)
  /-- Members of a class. -/
  | members (className : String) :
    Loop D (untilStep (.punctuation .closeBrace) (memberOrStray D className))
  /-- Methods of an interface. -/
  | methods : Loop D (untilStep (.punctuation .closeBrace) (interfaceMethod D))
  /-- Types behind a keyword. -/
  | types : Loop D (commaStep (Grammar.typeRef D.typeRef))
  /-- Constants of an enum. -/
  | constants : Loop D constantStep
  /-- Events of a trigger. -/
  | events : Loop D (commaStep triggerEvent)
  /-- The parts of a dotted name. -/
  | parts : Loop D partStep
  /-- Semicolons. -/
  | semicolons : Loop D semicolonStep

/-- A step of a loop that asks to be run again has read a token. -/
theorem Loop.reads {σ β : Type} {step : σ → Parser (Turn σ β)} (h : Loop D step)
    (hD : D.Progresses) (state : σ) : ReadsIf Turn.IsAgain (step state) := by
  cases h with
  | segments => exact segmentStep_reads state
  | typeArguments => exact commaStep_reads hD.typeRef.moves state
  | brackets => exact bracketsStep_reads state
  | modifiers => exact modifierStep_reads state
  | arrayValues => exact commaStep_reads (arrayValue_reads hD).moves state
  | annotationElements => exact untilStep_reads (keyedElement_reads hD) state
  | header => exact headerStep_reads hD state
  | expressions => exact commaStep_reads hD.assignment.moves state
  | mapEntries => exact commaStep_reads (mapEntry_reads hD).moves state
  | postfixChain => exact postfixStep_reads hD state
  | binaryChain level tighter =>
    exact binaryStep_reads hD level (binaryChain_reads hD tighter) state
  | statements => exact untilStep_reads (blockItem_reads hD) state
  | declarators => exact commaStep_reads (declarator_reads hD).moves state
  | elseChain => exact elseStep_reads hD state
  | catches => exact whileStep_reads (catchClause?_reads hD) state
  | parameters => exact commaStep_reads (parameter_reads hD).moves state
  | accessors => exact accessorStep_reads hD state
  | members className => exact untilStep_reads (memberOrStray_reads hD className) state
  | methods => exact untilStep_reads (interfaceMethod_reads hD) state
  | types => exact commaStep_reads (typeRef_reads hD.typeRef).moves state
  | constants => exact constantStep_reads state
  | events => exact commaStep_reads triggerEvent_reads.moves state
  | parts => exact partStep_reads state
  | semicolons => exact semicolonStep_reads state

/-! ## The look ahead for a cast -/

theorem length_dropSegments_le (kinds : List TokenKind) :
    (dropSegments kinds).length ≤ kinds.length := by
  fun_induction dropSegments kinds with
  | case1 text kinds ih =>
    simp only [List.length_cons]
    omega
  | case2 kinds => exact Nat.le_refl _

theorem length_dropBrackets_le (kinds : List TokenKind) :
    (dropBrackets kinds).length ≤ kinds.length := by
  fun_induction dropBrackets kinds with
  | case1 kinds ih =>
    simp only [List.length_cons]
    omega
  | case2 kinds => exact Nat.le_refl _

/-- What is left behind a type, or behind type arguments, is shorter. -/
theorem length_drop_lt (limit : Nat) :
    (∀ {kinds rest}, dropType limit kinds = some rest → rest.length < kinds.length) ∧
      ∀ {kinds rest}, dropArguments limit kinds = some rest → rest.length < kinds.length := by
  induction limit with
  | zero =>
    constructor
    · intro kinds rest drop
      simp [dropType] at drop
    · intro kinds rest drop
      simp [dropArguments] at drop
  | succ limit ih =>
    obtain ⟨ihType, ihArguments⟩ := ih
    constructor
    · intro kinds rest drop
      rw [dropType.eq_def] at drop
      split at drop
      · next text kinds same =>
        cases same
        have shorter := length_dropSegments_le kinds
        split at drop
        · next inner opened =>
          obtain ⟨behind, arguments, rfl⟩ := Option.map_eq_some_iff.mp drop
          have := ihArguments arguments
          have := length_dropBrackets_le behind
          rw [opened] at shorter
          simp only [List.length_cons] at shorter ⊢
          omega
        · cases drop
          have := length_dropBrackets_le (dropSegments kinds)
          simp only [List.length_cons]
          omega
      · cases drop
    · intro kinds rest drop
      rw [dropArguments] at drop
      split at drop
      · next behind type =>
        have here := ihType type
        have further := ihArguments drop
        simp only [List.length_cons] at here
        omega
      · next behind type =>
        have := ihType type
        cases drop
        simp only [List.length_cons] at this
        omega
      · cases drop

/-- The look ahead passes a token on each way round, so a limit of one step for every token is
never reached, and any larger one gives the same answer. -/
theorem drop_eq_of_le (limit : Nat) :
    (∀ {limit' kinds}, kinds.length ≤ limit → kinds.length ≤ limit' →
      dropType limit kinds = dropType limit' kinds) ∧
      ∀ {limit' kinds}, kinds.length < limit → kinds.length < limit' →
        dropArguments limit kinds = dropArguments limit' kinds := by
  induction limit with
  | zero =>
    constructor
    · intro limit' kinds enough _
      obtain rfl : kinds = [] := List.length_eq_zero_iff.mp (Nat.le_zero.mp enough)
      cases limit' <;> simp [dropType]
    · intro limit' kinds enough
      omega
  | succ limit ih =>
    obtain ⟨ihType, ihArguments⟩ := ih
    constructor
    · intro limit' kinds enough enough'
      rcases kinds with _ | ⟨kind, kinds⟩
      · cases limit' <;> simp [dropType]
      simp only [List.length_cons] at enough enough'
      cases kind with
      | name text =>
        obtain ⟨limit', rfl⟩ : ∃ l, limit' = l + 1 := ⟨limit' - 1, by omega⟩
        have shorter := length_dropSegments_le kinds
        rw [dropType, dropType]
        split
        · next inner opened =>
          rw [opened, List.length_cons] at shorter
          rw [@ihArguments limit' inner (by omega) (by omega)]
        · rfl
      | _ => cases limit' <;> simp [dropType]
    · intro limit' kinds enough enough'
      obtain ⟨limit', rfl⟩ : ∃ l, limit' = l + 1 := ⟨limit' - 1, by omega⟩
      rw [dropArguments, dropArguments, @ihType limit' kinds (by omega) (by omega)]
      cases type : dropType limit' kinds with
      | none => rfl
      | some behind =>
        have := (length_drop_lt limit').1 type
        split
        · next inner same =>
          cases same
          rw [List.length_cons] at this
          exact @ihArguments limit' inner (by omega) (by omega)
        · rfl
        · rfl

end Grammar

/-! ## Programs -/

open Grammar Apex.Parser

/-- Parsing never stops because a loop was broken off. -/
theorem parse_ne_brokenOff (depth : Nat) (tokens : List Token) (e : ParseError)
    (h : parseWithin depth tokens = .error e) : e.isBrokenOff = false := by
  unfold parseWithin parseWith at h
  dsimp only at h
  split at h
  · cases h
    rfl
  · have run := compilationUnit_moves (progresses_levels depth) (Cursor.ofTokens tokens)
    generalize compilationUnit (levels depth) (Cursor.ofTokens tokens) = outcome at h run
    cases run with
    | ok passes reads => cases h
    | error other =>
      cases h
      exact other

/-- Parsing ends, with a program or with an error that says what was expected, and passes over no
end of a file. No loop is broken off: each comes out as it would without a limit, and every step but
the last reads a token. What is nested is read one level further down, and below the last level
there is nothing; every construct that is read has read a token. The look ahead for a cast needs no
more steps than there are tokens. -/
theorem parse_progresses :
    (∀ tokens, (∃ unit, parse tokens = .ok unit) ∨
      ∃ e, parse tokens = .error e ∧ e.isBrokenOff = false) ∧
    (∀ depth, Moves (compilationUnit (levels depth))) ∧
    (∀ depth {σ β : Type} {step : σ → Parser (Turn σ β)}, Loop (levels depth) step →
      ∀ state c, Runs step state c (iterate step state c)) ∧
    (∀ depth, (levels depth).Progresses) ∧
    (levels 0 = .bottom ∧ ∀ depth, levels (depth + 1) = above (levels depth)) ∧
    ∀ kinds limit, kinds.length ≤ limit → dropType limit kinds = dropType kinds.length kinds := by
  refine ⟨fun tokens => ?_, fun depth => compilationUnit_moves (progresses_levels depth),
    fun depth _ _ _ loop => ?_, progresses_levels, ⟨rfl, fun _ => rfl⟩, fun kinds limit enough => ?_⟩
  · cases run : parse tokens with
    | ok unit => exact .inl ⟨unit, rfl⟩
    | error e => exact .inr ⟨e, rfl, parse_ne_brokenOff maxNesting tokens e run⟩
  · exact runs_iterate (loop.reads (progresses_levels depth))
  · exact (drop_eq_of_le limit).1 enough (Nat.le_refl _)

/-- The statements of an unfinished block, and a type with an argument. -/
theorem parse_progresses_block :
    (∃ tokens e, lex "a; \x7b" = .ok tokens ∧
      itemsUntil (.punctuation .closeBrace) (blockItem (levels 3)) (Cursor.ofTokens tokens) =
        .error e ∧
      Runs (untilStep (.punctuation .closeBrace) (blockItem (levels 3))) []
        (Cursor.ofTokens tokens) (.error e)) ∧
    [TokenKind.name "A", .operator .less, .name "B", .operator .greater].length ≤ 9 ∧
    dropType 9 [.name "A", .operator .less, .name "B", .operator .greater] =
      dropType 4 [.name "A", .operator .less, .name "B", .operator .greater] := by
  refine ⟨?_, by decide, parse_progresses.2.2.2.2.2 _ 9 (by decide)⟩
  have stops : ((lex "a; \x7b").toOption.map fun tokens =>
      (itemsUntil (.punctuation .closeBrace) (blockItem (levels 3))
        (Cursor.ofTokens tokens)).isOk) = some false := by decide +kernel
  cases lexed : lex "a; \x7b" with
  | error e => simp [lexed, Except.toOption] at stops
  | ok tokens =>
    cases run : itemsUntil (.punctuation .closeBrace) (blockItem (levels 3))
        (Cursor.ofTokens tokens) with
    | ok r => simp [lexed, run, Except.toOption, Except.isOk, Except.toBool] at stops
    | error e =>
      have runs := parse_progresses.2.2.1 3 .statements [] (Cursor.ofTokens tokens)
      rw [show iterate _ [] _ = _ from run] at runs
      exact ⟨tokens, e, rfl, run, runs⟩

end Apex
