import Apex.Proofs.Depth.Declarations
import Apex.Proofs.Lookahead.Casts
import Apex.Proofs.Progress.Programs

/-!
# The depth of accepted programs

The cap on nesting is a limit on the trees of accepted programs: no path crosses more edges that
lead to a nested construct, but for those that end in the header of a member type, which may cross
one more. Chains cost nothing, however long they are.
-/

namespace Apex

open Node

namespace Grammar

open Apex.Parser

variable {limit : Nat} {D : Deeper}

/-! ## Levels -/

theorem fits_bottom : Deeper.bottom.Fits 0 where
  typeRef _ _ _ := nofun
  annotationMark _ _ _ := nofun
  annotationValue _ _ _ := nofun
  assignment _ _ _ := nofun
  ternary _ _ _ := nofun
  unary _ _ _ := nofun
  statement _ _ _ := nofun
  typeDeclaration _ _ _ _ := nofun

/-- What a level reads takes one from the limit of the level above. -/
theorem yields_fitsBelow {α : Type} {p : Parser α} {node : α → Node}
    (h : p.Yields fun x => (node x).FitsIn limit) : p.Yields fun x => (node x).FitsBelow (limit + 1) :=
  h.mono fun _ => fitsBelow_succ.mpr

theorem annotationValue_fitsIn (hD : D.Fits limit) :
    (annotationValue D).Yields (·.node.FitsIn limit) := by
  refine (annotationValue_fits hD).mono fun v fits => ?_
  unfold ValueFits at fits
  cases annotated : v.node.element.isAnnotated with
  | true => exact (fitsBehind_true.mp (annotated ▸ fits)).fitsIn
  | false => exact fitsBehind_false.mp (annotated ▸ fits)

theorem fits_above (hD : D.Fits limit) : (above D).Fits (limit + 1) where
  typeRef := yields_fitsBelow (typeRef_fits hD.typeRef)
  annotationMark := yields_fitsBelow (annotation_fits hD)
  annotationValue := yields_fitsBelow (annotationValue_fitsIn hD)
  assignment := yields_fitsBelow (assignment_fits hD)
  ternary := yields_fitsBelow (ternary_fits hD)
  unary := yields_fitsBelow (unary_fits hD)
  statement := yields_fitsBelow (statement_fits hD)
  typeDeclaration hh := (typeDeclaration_fits hD hh).mono fun _ fits => ⟨limit, rfl, fits⟩

theorem fits_levels (depth : Nat) : (levels depth).Fits depth := by
  induction depth with
  | zero => exact fits_bottom
  | succ depth ih => exact fits_above ih

/-! ## Programs -/

/-- No path goes too deep, but for those into the header of a member type. -/
def FitsProgram (limit : Nat) (n : Node) : Prop :=
  ∀ path, n.crossings path ≤ limit + (n.entersMemberHeader path).toNat

theorem FitsProgram.of_fitsIn {n : Node} (h : n.FitsIn limit) : FitsProgram limit n :=
  fun path => Nat.le_add_right_of_le (h path)

theorem FitsProgram.of_fitsType {n : Node} (h : n.FitsType limit limit) : FitsProgram limit n := by
  intro path
  have fits := h path
  split at fits
  · exact Nat.le_add_right_of_le fits
  · exact fits

theorem triggerDeclaration_fits (hD : D.Fits limit) :
    (triggerDeclaration D).Yields (·.node.FitsIn limit) := by
  intro c d c' h
  obtain ⟨_, name, _, _, _, object, _, _, _, events, _, run, _, body, _, run', done⟩ :=
    triggerDeclaration_ok.mp h
  cases done
  have he : ∀ n ∈ events.map Spanned.eventNode, n.FitsIn limit :=
    List.forall_mem_map.mpr fun _ _ => fitsIn_leaf
  have named := List.forall_mem_cons.mpr
    ⟨fitsIn_identifier name, List.forall_mem_cons.mpr ⟨fitsIn_identifier object, he⟩⟩
  exact fitsIn_flat (fun _ _ => rfl)
    (List.forall_mem_append.mpr ⟨named, List.forall_mem_singleton.mpr (block_fits hD run')⟩)

theorem declaration_fits (hD : D.Fits limit) :
    (declaration D).Yields fun d => FitsProgram limit d.node := by
  intro c d c' h
  rcases declaration_ok.mp h with ⟨_, run⟩ | ⟨_, read, _, type, _, headed, run, done⟩
  · exact .of_fitsIn (triggerDeclaration_fits hD run)
  · cases done
    exact .of_fitsType (typeDeclaration_fits hD (header_fits hD headed) run)

theorem compilationUnit_fits (hD : D.Fits limit) :
    (compilationUnit D).Yields fun u => FitsProgram limit u.node := by
  intro c u c' h
  obtain ⟨⟨found, _⟩, _, run, _, done⟩ := compilationUnit_ok.mp h
  cases done
  have hf : FitsProgram limit found.node := by
    rcases declarationAndSemicolons_ok.mp run with ⟨_, _, _, _, done⟩ | ⟨_, _, _, _, _, run, _, done⟩
    · cases done
      exact .of_fitsIn fitsIn_leaf
    · cases done
      exact declaration_fits hD run
  intro path
  match path with
  | [] => exact Nat.zero_le _
  | 0 :: path =>
    show 0 + found.node.crossings path ≤ limit + (false || found.node.entersMemberHeader path).toNat
    rw [Nat.zero_add, Bool.false_or]
    exact hf path
  | (i + 1) :: path => exact Nat.zero_le _

end Grammar

/-- In the tree of an accepted program no path crosses more edges to nested constructs than the cap
on nesting, and one more only on its way through the header of a member type. Links of a chain of
conditionals, operands of a chain of operators and receivers of a postfix chain are not counted. -/
theorem crossings_le_of_parse {tokens : List Token} {unit : CompilationUnit}
    (accepted : parse tokens = .ok unit) (path : List Nat) :
    unit.node.crossings path ≤ maxNesting + (unit.node.entersMemberHeader path).toNat := by
  unfold parse parseWithin at accepted
  rcases parseWith_cases tokens with ⟨e, _, refused⟩ | runs
  · rw [refused] at accepted
    cases accepted
  · rw [runs] at accepted
    cases run : Grammar.compilationUnit (Grammar.levels maxNesting) (Cursor.ofTokens tokens) with
    | error e =>
      rw [run] at accepted
      cases accepted
    | ok r =>
      rw [run] at accepted
      cases accepted
      exact Grammar.compilationUnit_fits (Grammar.fits_levels maxNesting) run path

/-- A conditional expression in a call at the end of a sum, in the field of a member type. -/
theorem crossings_le_of_parse_field :
    ∃ tokens unit, lex "class C { class D { Integer f = a + g(b ? c : (d)); } }" = .ok tokens ∧
      parse tokens = .ok unit ∧ unit.node.crossings [0, 1, 1, 1, 1, 1, 1, 2, 0] = 5 ∧
      unit.node.crossings [0, 1, 1, 1, 1, 1, 1, 2, 0] ≤
        maxNesting + (unit.node.entersMemberHeader [0, 1, 1, 1, 1, 1, 1, 2, 0]).toNat := by
  have read : ((lex "class C { class D { Integer f = a + g(b ? c : (d)); } }").toOption.bind
      fun tokens => (parse tokens).toOption.map fun unit =>
        unit.node.crossings [0, 1, 1, 1, 1, 1, 1, 2, 0]) = some 5 := by decide +kernel
  cases lexed : lex "class C { class D { Integer f = a + g(b ? c : (d)); } }" with
  | error e => simp [lexed, Except.toOption] at read
  | ok tokens =>
    cases accepted : parse tokens with
    | error e => simp [lexed, accepted, Except.toOption] at read
    | ok unit =>
      simp only [lexed, accepted, Except.toOption, Option.bind_some, Option.map_some,
        Option.some.injEq] at read
      exact ⟨tokens, unit, rfl, accepted, read, crossings_le_of_parse accepted _⟩

/-! ## A header that goes deeper -/

namespace Grammar

open Apex.Parser

variable {c : Cursor} {k : TokenKind} {row rest : List TokenKind}

/-- Braces around braces. -/
def braces (n : Nat) (rest : List TokenKind) : List TokenKind :=
  List.replicate (n + 1) (.punctuation .openBrace) ++
    (List.replicate (n + 1) (.punctuation .closeBrace) ++ rest)

theorem braces_succ (n : Nat) (rest : List TokenKind) :
    braces (n + 1) rest =
      .punctuation .openBrace :: braces n (.punctuation .closeBrace :: rest) := by
  unfold braces
  rw [List.replicate_succ, List.replicate_succ' (n := n + 1)]
  simp

theorem braces_append (n : Nat) (rest more : List TokenKind) :
    braces n rest ++ more = braces n (rest ++ more) := by
  simp [braces]

/-- Arrays in arrays are read as deep as there are levels. -/
theorem annotationValue_braces {depth n : Nat} (room : n ≤ depth) (shows : KindsAhead (braces n rest) c) :
    ∃ v c₁ path, annotationValue (levels depth) c = .ok (v, c₁) ∧ KindsAhead rest c₁ ∧
      v.node.element.isAnnotated = false ∧ v.node.crossings path = n := by
  induction n generalizing depth c rest with
  | zero =>
    have inner := shows.2
    refine ⟨_, _, [], annotationValue_ok.mpr (.inr (.inl ⟨shows.1, [], _,
      arrayValues_ok.mpr (.inl ⟨inner.1, rfl⟩), inner.1, rfl⟩)), inner.2, rfl, rfl⟩
  | succ n ih =>
    obtain ⟨depth, rfl⟩ := Nat.exists_eq_add_of_lt (Nat.lt_of_lt_of_le (Nat.zero_lt_succ n) room)
    rw [Nat.zero_add] at room ⊢
    rw [braces_succ] at shows
    have inner := shows.2
    obtain ⟨v, c₁, path, run, behind, array, deep⟩ := ih (Nat.le_of_succ_le_succ room) inner
    have opening : c.advance.current.kind = .punctuation .openBrace := inner.1
    have item : arrayValue (levels (depth + 1)) c.advance = .ok (v, c₁) :=
      arrayValue_ok.mpr ⟨v, c₁, run, by simp [isOneOf, behind.1], rfl⟩
    have values : commaSeparated (arrayValue (levels (depth + 1))) c.advance = .ok ([v], c₁) := by
      rw [commaSeparated, bind_eq_of_ok item]
      exact iterate_of_done (commaStep_ok.mpr (.inr ⟨by simp [behind.1], rfl⟩))
    refine ⟨_, _, 0 :: path, annotationValue_ok.mpr (.inr (.inl ⟨shows.1, [v], c₁,
      arrayValues_ok.mpr (.inr ⟨by simp [opening], values⟩), behind.1, rfl⟩)), behind.2, rfl,
      ?_⟩
    show 1 + v.node.crossings path = n + 1
    rw [deep, Nat.add_comm]

/-- An annotation with arrays in arrays as its value. -/
theorem annotation_braces {depth n : Nat} (room : n ≤ depth)
    (shows : KindsAhead (.punctuation .at :: .name "A" :: .punctuation .openParen ::
      braces n (.punctuation .closeParen :: rest)) c) :
    ∃ a c₁ path, annotationMark (levels depth) c = .ok (a, c₁) ∧ KindsAhead rest c₁ ∧
      a.node.crossings path = n := by
  have named := shows.2
  have opened := named.2
  have inner := opened.2
  obtain ⟨v, c₁, path, run, behind, array, deep⟩ := annotationValue_braces room inner
  have opening : c.advance.advance.advance.current.kind = .punctuation .openBrace := inner.1
  have positional : keyIsAhead c.advance.advance.advance = false := by
    simp [keyIsAhead, opening, TokenKind.isName]
  have elements : annotationElements (levels depth) c.advance.advance.advance =
      .ok ([.mk v.span none v false], c₁) :=
    annotationElements_ok.mpr (.inr (.inr ⟨positional, by simp [opening], v, c₁, run,
      by simp [isOneOf, behind.1], rfl⟩))
  refine ⟨_, _, 1 :: 0 :: path, annotation_ok.mpr ⟨shows.1, _, _,
    identifier_ok.mpr ⟨"A", named.1, rfl⟩,
    .inl ⟨opened.1, _, _, elements, behind.1, rfl⟩⟩, behind.2, ?_⟩
  show 0 + (((Element.annotationElement _).deepens 0 v.node.element).toNat +
    v.node.crossings path) = n
  rw [deepens_annotationElement, array, deep, Bool.toNat_false, Nat.zero_add, Nat.zero_add]

/-- A class without a base, up to its closing brace. -/
theorem typeDeclaration_of_members (read : ReadHeader) {text : String} {members : List Member}
    {c₁ : Cursor}
    (shows : KindsAhead (.keyword .kwClass :: .name text :: .punctuation .openBrace :: row) c)
    (run : itemsUntil (.punctuation .closeBrace) (memberOrStray D text) c.advance.advance.advance =
      .ok (members, c₁)) (close : c₁.current.kind = .punctuation .closeBrace) :
    ∃ span name, typeDeclaration D read c =
      .ok (.classType span ⟨read.header, name, none, []⟩ members, c₁.advance) := by
  have named := shows.2
  have opened := named.2
  have other : ∀ k, c.advance.advance.current.kind ≠ .keyword k := by simp [opened.1]
  have head : classHead D read.header c.advance = .ok (⟨read.header, _, none, []⟩, _) :=
    classHead_ok.mpr ⟨_, _, _, _, _, _, identifier_ok.mpr ⟨text, named.1, rfl⟩,
      baseType_ok.mpr (.inr ⟨other _, rfl⟩), typesBehind_ok.mpr (.inr ⟨other _, rfl⟩), rfl⟩
  exact ⟨_, _, typeDeclaration_ok.mpr (.inl ⟨shows.1, _, _, _, _, head,
    braced_ok.mpr ⟨opened.1, _, _, run, close, rfl⟩, rfl⟩)⟩

/-- What stands before a class without annotations or modifiers. -/
theorem headerStep_class (shows : KindsAhead (.keyword .kwClass :: rest) c)
    (annotations : List AnnotationMark) (start : Option Span) :
    headerStep D ⟨⟨annotations, []⟩, start⟩ c = .ok (.done ⟨⟨annotations.reverse, []⟩, start⟩, c) := by
  have noModifier : modifier? c = .ok (none, c) :=
    modifier?_ok.mpr (.inr ⟨by simp [modifierAhead?, shows.1, TokenKind.spells]; rfl,
      by simp [shows.1], rfl⟩)
  simp [headerStep, shows.1, bind_of_ok noModifier]

/-- A header that is only an annotation. -/
theorem header_annotated {a : AnnotationMark} {c₁ : Cursor} (hD : D.Progresses)
    (opens : c.current.kind = .punctuation .at) (run : annotationMark D c = .ok (a, c₁))
    (shows : KindsAhead (.keyword .kwClass :: rest) c₁) :
    header D c = .ok (⟨⟨[a], []⟩, some a.span⟩, c₁) := by
  have first : headerStep D ⟨⟨[], []⟩, none⟩ c = .ok (.again ⟨⟨[a], []⟩, some a.span⟩, c₁) := by
    simp [headerStep, opens, run]
  rw [header, iterate_eq_step (headerStep_reads hD), bind_eq_of_ok first]
  exact iterate_of_done (headerStep_class shows [a] _)

/-- The kinds of the tokens of a class whose member has arrays in arrays in its header. -/
def headerKinds (n : Nat) : List TokenKind :=
  .keyword .kwClass :: .name "C" :: .punctuation .openBrace :: .punctuation .at :: .name "A" ::
    .punctuation .openParen :: braces n
      [.punctuation .closeParen, .keyword .kwClass, .name "D", .punctuation .openBrace,
        .punctuation .closeBrace, .punctuation .closeBrace]

/-- The annotation of a member's header is read before the member is, at the level of the class. -/
theorem compilationUnit_header (depth : Nat)
    (shows : KindsAhead (headerKinds (depth + 1) ++ [.endOfFile]) c) :
    ∃ unit c₁ path, compilationUnit (levels (depth + 1)) c = .ok (unit, c₁) ∧
      unit.node.crossings path = depth + 2 := by
  simp only [headerKinds, List.cons_append, braces_append, List.nil_append] at shows
  have inner := shows.2.2.2
  obtain ⟨a, c₄, path, annotated, atMember, deep⟩ := annotation_braces (Nat.le_refl (depth + 1)) inner
  have hD := progresses_levels (depth + 1)
  have headed := header_annotated hD inner.1 annotated atMember
  have close := atMember.2.2.2
  have none : itemsUntil (.punctuation .closeBrace) (memberOrStray (levels depth) "D")
      c₄.advance.advance.advance = .ok ([], c₄.advance.advance.advance) :=
    iterate_of_done (untilStep_ok.mpr (.inl ⟨close.1, rfl⟩))
  obtain ⟨span, name, typed⟩ :=
    typeDeclaration_of_members ⟨⟨[a], []⟩, some a.span⟩ atMember none close.1
  generalize memberType : TypeDeclaration.classType span ⟨⟨[a], []⟩, name, .none, []⟩ [] = type
    at typed
  have member : memberOrStray (levels (depth + 1)) "C" c.advance.advance.advance =
      .ok (.type type, c₄.advance.advance.advance.advance) := by
    refine memberOrStray_ok.mpr (.inr ⟨by simp [inner.1], classMember_ok.mpr ⟨_, c₄, headed, ?_⟩⟩)
    simp only [memberSort, atMember.1]
    exact ⟨type, _, typed, rfl⟩
  have ends := close.2
  have members : itemsUntil (.punctuation .closeBrace) (memberOrStray (levels (depth + 1)) "C")
      c.advance.advance.advance = .ok ([.type type], c₄.advance.advance.advance.advance) := by
    rw [itemsUntil, iterate_eq_step (untilStep_reads (memberOrStray_reads hD "C")),
      bind_eq_of_ok (untilStep_ok.mpr (.inr ⟨by simp [inner.1], _, _, member, rfl⟩))]
    exact iterate_of_done (untilStep_ok.mpr (.inl ⟨ends.1, rfl⟩))
  obtain ⟨span', name', outer⟩ :=
    typeDeclaration_of_members ⟨⟨[], []⟩, .none⟩ shows members ends.1
  have plain : header (levels (depth + 1)) c = .ok (⟨⟨[], []⟩, .none⟩, c) :=
    iterate_of_done (headerStep_class shows [] .none)
  have atEnd := ends.2
  have noSemicolon : semicolons c₄.advance.advance.advance.advance.advance = .ok (0, _) :=
    iterate_of_done (semicolonStep_ok.mpr (.inr ⟨by simp [atEnd.1], rfl⟩))
  have declared := declaration_ok.mpr (.inr ⟨by simp [shows.1], _, _, _, _, plain, outer, rfl⟩)
  have some : nothingAhead c = false := by
    simp [nothingAhead, Cursor.atEnd, Token.isEnd, shows.1]
  have whole := declarationAndSemicolons_ok.mpr
    (.inr ⟨some, _, _, _, _, declared, noSemicolon, rfl⟩)
  refine ⟨_, _, 0 :: 1 :: 0 :: path, compilationUnit_ok.mpr ⟨_, _, whole, ?_, rfl⟩, ?_⟩
  · simp [Cursor.atEnd, Token.isEnd, atEnd.1]
  · subst memberType
    show 0 + (1 + (a.node.element.isType.toNat + a.node.crossings path)) = depth + 2
    rw [element_annotated, deep]
    show 0 + (1 + (0 + (depth + 1))) = depth + 2
    omega

end Grammar

/-- Tokens of the given kinds and an end behind them, with no regard to where they stand. -/
def Token.row (kinds : List TokenKind) : List Token :=
  (kinds ++ [TokenKind.endOfFile]).map fun k => Token.plain k (Span.point 0)

theorem Cursor.tokens_row (kinds : List TokenKind) :
    (Cursor.ofTokens (Token.row kinds)).tokens = (Token.row kinds).toArray := by
  have last : (Token.row kinds).getLast? = some (.plain .endOfFile (Span.point 0)) := by
    simp [Token.row]
  show (Cursor.withEnd (Token.row kinds)).toArray = _
  unfold Cursor.withEnd
  rw [last]
  rfl

namespace Grammar

/-- The kinds of a row are ahead at each place in it. -/
theorem kindsAhead_of_drop {c : Cursor} {kinds : List TokenKind}
    (row : (c.tokens.toList.drop c.position).map Token.kind = kinds ++ [.endOfFile])
    (proper : TokenKind.endOfFile ∉ kinds) : KindsAhead (kinds ++ [.endOfFile]) c := by
  induction kinds generalizing c with
  | nil =>
    rw [List.drop_eq_getElem_cons (by simpa using c.inBounds), List.map_cons] at row
    exact ⟨(List.cons.inj row).1, trivial⟩
  | cons k kinds ih =>
    rw [List.drop_eq_getElem_cons (by simpa using c.inBounds), List.map_cons] at row
    obtain ⟨here, row⟩ := List.cons.inj row
    obtain ⟨other, proper⟩ := not_or.mp (mt List.mem_cons.mpr proper)
    have inside : c.current.isEnd = false := Parser.isEnd_of_kind here (Ne.symm other)
    refine ⟨here, ih ?_ proper⟩
    rw [Cursor.advance_of_not_atEnd inside]
    exact row

theorem kindsAhead_row {kinds : List TokenKind} (proper : TokenKind.endOfFile ∉ kinds) :
    KindsAhead (kinds ++ [.endOfFile]) (Cursor.ofTokens (Token.row kinds)) := by
  refine kindsAhead_of_drop ?_ proper
  rw [Cursor.tokens_row]
  simp [Cursor.ofTokens, Token.row, Token.plain, Function.comp_def]

end Grammar

/-- Tokens behind which nothing stands but the end are parsed as the grammar reads them. -/
theorem parseWithin_row (depth : Nat) {kinds : List TokenKind}
    (proper : TokenKind.endOfFile ∉ kinds) :
    parseWithin depth (Token.row kinds) =
      (Grammar.compilationUnit (Grammar.levels depth) (Cursor.ofTokens (Token.row kinds))).map
        Prod.fst := by
  have inside : (kinds.map fun k => Token.plain k (Span.point 0)).findIdx? Token.isEnd = .none := by
    refine List.findIdx?_eq_none_iff.mpr (List.forall_mem_map.mpr fun k hk => ?_)
    exact Parser.isEnd_of_kind rfl fun same => proper (same ▸ hk)
  have found : (Token.row kinds).findIdx? Token.isEnd = some kinds.length := by
    rw [Token.row, List.map_append, List.findIdx?_append, inside]
    simp [Token.plain, Token.isEnd]
  have stray : (Cursor.ofTokens (Token.row kinds)).strayAfterEnd? = none := by
    unfold Cursor.strayAfterEnd?
    rw [Cursor.tokens_row, List.findIdx?_toArray, found]
    simp [Token.row]
  simp only [parseWithin, parseWith, stray]

/-- The row of a class whose member has more arrays in its header than may be nested in the member
itself: the path to the innermost goes one edge too deep. -/
theorem not_crossings_le_maxNesting :
    ∃ unit path, parse (Token.row (Grammar.headerKinds maxNesting)) = .ok unit ∧
      maxNesting < unit.node.crossings path := by
  have proper : TokenKind.endOfFile ∉ Grammar.headerKinds maxNesting := by
    simp [Grammar.headerKinds, Grammar.braces]
  obtain ⟨unit, c₁, path, run, deep⟩ := Grammar.compilationUnit_header 999 (Grammar.kindsAhead_row proper)
  have accepted : parse (Token.row (Grammar.headerKinds maxNesting)) = .ok unit := by
    rw [parse, parseWithin_row maxNesting proper]
    exact congrArg (Except.map Prod.fst) run
  refine ⟨unit, path, accepted, ?_⟩
  rw [deep]
  exact Nat.lt_succ_self _

end Apex
