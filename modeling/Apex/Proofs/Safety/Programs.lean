import Apex.Proofs.Safety.Cuts
import Apex.Proofs.Safety.Declarations
import Apex.Proofs.Safety.Sources
import Apex.Proofs.Spans.Programs

/-!
# Every span is safe

The grammar never leaves a family of spans that has those of the tokens it reads. The spans of the
tokens of a text are safe to use on it, and so are all that are made of them: those of the nodes of
a tree and of an error.
-/

namespace Apex

namespace Grammar

open Apex.Parser (StaysIn)
open Apex.Parser.StaysIn

variable {S : Span.Family} {D : Deeper}

/-! ## Nesting -/

theorem bottom_staysIn : Deeper.bottom.StaysIn S where
  typeRef := fail _
  annotationMark := fail _
  annotationValue := fail _
  assignment := fail _
  ternary := fail _
  unary := fail _
  statement := fail _
  typeDeclaration _ := fail _
  ahead _ := matchesAhead _

theorem above_staysIn (h : D.StaysIn S) : (above D).StaysIn S where
  typeRef := typeRef_staysIn h.typeRef
  annotationMark := annotation_staysIn h
  annotationValue := annotationValue_staysIn h
  assignment := assignment_staysIn h
  ternary := ternary_staysIn h
  unary := unary_staysIn h
  statement := statement_staysIn h
  typeDeclaration hr := typeDeclaration_staysIn h hr
  ahead _ := matchesAhead _

/-- However deeply programs may be nested, the grammar does not leave the family. -/
theorem levels_staysIn (depth : Nat) : (levels depth).StaysIn S := by
  induction depth with
  | zero => exact bottom_staysIn
  | succ depth ih => exact above_staysIn ih

/-! ## Files -/

theorem throughPrevious_staysIn {start : Span} (h : start ∈ S) :
    StaysIn S (· ∈ S) (throughPrevious start) := by
  intro c row
  unfold throughPrevious
  split
  · next last found => exact .ok (Span.Family.merge_mem h (row.previous? found).span) row
  · exact .ok h row

theorem declarationAndSemicolons_staysIn (hD : D.StaysIn S) :
    StaysIn S (·.1.node.LiesIn S) (declarationAndSemicolons D) := by
  have nothing {span : Span} (own : span ∈ S) : (Declaration.nothing span).node.LiesIn S := by
    simpa [Declaration.node] using own
  refine here.bind fun start hs => getBind fun c _ => (isAt _).bind fun _ _ => ite ?_ ?_
  · refine semicolons.bind fun count _ => (throughPrevious_staysIn hs).bind fun span own => ?_
    exact pure (nothing own)
  · exact (declaration_staysIn hD).bind fun d hd => semicolons.bind fun count _ => pure hd

theorem compilationUnit_staysIn (hD : D.StaysIn S) :
    StaysIn S (·.node.LiesIn S) (compilationUnit D) := by
  refine here.bind fun start hs => (declarationAndSemicolons_staysIn hD).bind fun read hr => ?_
  refine getBind fun c _ => check (fail _) ?_
  refine (throughPrevious_staysIn hs).bind fun span own => pure ?_
  simpa [CompilationUnit.node, own] using hr

end Grammar

/-- The parser does not leave a family that has the spans of all tokens of its row. -/
theorem parse_liesIn {S : Span.Family} {tokens : List Token}
    (row : (Cursor.ofTokens tokens).LiesIn S) :
    match parse tokens with
    | .ok unit => unit.node.LiesIn S
    | .error e => e.span ∈ S := by
  unfold parse parseWithin parseWith
  dsimp only
  cases stray : (Cursor.ofTokens tokens).strayAfterEnd? with
  | some t =>
    unfold Cursor.strayAfterEnd? at stray
    split at stray
    · exact (row t (Array.mem_of_getElem? stray)).span
    · cases stray
  | none =>
    have outcome := Grammar.compilationUnit_staysIn (Grammar.levels_staysIn maxNesting) _ row
    generalize Grammar.compilationUnit (Grammar.levels maxNesting) (Cursor.ofTokens tokens) = result
      at outcome ⊢
    cases outcome with
    | ok lies => exact lies
    | error lies => exact lies

/-- The tree of a text and its error carry only spans that are safe to use on it. -/
theorem parseSource_liesIn (source : String) :
    match parseSource source with
    | .ok unit => unit.node.LiesIn (Span.safe source)
    | .error e => e.span ∈ Span.safe source := by
  unfold parseSource
  cases read : lex source with
  | ok tokens =>
    refine parse_liesIn fun t mem => ?_
    rw [tokens_of_lex read] at mem
    exact liesIn_of_lex read t (List.mem_toArray.mp mem)
  | error errors =>
    cases errors with
    | nil => exact Span.isSafe_point_zero source
    | cons first others => exact isSafe_of_lex_error read first List.mem_cons_self

/-! ## Source texts -/

/-- A span that comes out of a source text: its lexer or its parser hands it over. -/
inductive Carries (source : String) : Span → Prop
  /-- The span of a token or of a variable bound in it. -/
  | token {tokens : List Token} {t : Token} {s : Span} (read : lex source = .ok tokens)
    (mem : t ∈ tokens) (carried : s ∈ t.spans) : Carries source s
  /-- The place of a lexical fault. -/
  | fault {errors : List LexError} {e : LexError} (refused : lex source = .error errors)
    (mem : e ∈ errors) : Carries source e.span
  /-- The span of a node anywhere in the tree or of a variable bound in it. -/
  | node {unit : CompilationUnit} {path : List Nat} {n : Node} {s : Span}
    (accepted : parseSource source = .ok unit) (reached : unit.node.descend? path = some n)
    (carried : s ∈ n.spans) : Carries source s
  /-- The place of the error that the parser stops with. -/
  | error {e : ParseError} (refused : parseSource source = .error e) : Carries source e.span

/-- Spans are always safe to use. Every span that comes out of a source text ends no earlier than it
starts and no later than the text, both between two characters, so that the text can be cut there.
And nothing that the lexer itself cuts out of the text lies elsewhere: no cut fails. -/
theorem isSafe_of_carries (source : String) :
    (∀ s, Carries source s → s.IsSafe source) ∧ lexByCutting? source = some (lex source) := by
  refine ⟨fun s carries => ?_, lexByCutting?_eq source⟩
  have program := parseSource_liesIn source
  cases carries with
  | token read mem carried => exact liesIn_of_lex read _ mem s carried
  | fault refused mem => exact isSafe_of_lex_error refused _ mem
  | node accepted reached carried =>
    rw [accepted] at program
    exact (program.descend reached).spans s carried
  | error refused =>
    rw [refused] at program
    exact program

/-- A variable bound behind a letter of two bytes. -/
theorem isSafe_of_carries_bind :
    Carries "[FIND 'é' :a.b]" ⟨11, 15⟩ ∧ Span.IsSafe "[FIND 'é' :a.b]" ⟨11, 15⟩ ∧
      lexByCutting? "[FIND 'é' :a.b]" = some (lex "[FIND 'é' :a.b]") := by
  have read : lex "[FIND 'é' :a.b]" =
      .ok [.plain (.sosl ⟨"FIND 'é' :a.b", [⟨":a.b", ⟨11, 15⟩⟩]⟩) ⟨0, 16⟩,
        .plain .endOfFile ⟨16, 16⟩] := by
    have ahead : queryAhead? "FIND 'é' :a.b]".toList = some .sosl := by
      cbv
    unfold lex
    rw [show "[FIND 'é' :a.b]".toList = '[' :: "FIND 'é' :a.b]".toList by decide +kernel,
      lexFrom_cons, Lexeme.read_query ahead]
    decide +kernel
  have carried : Carries "[FIND 'é' :a.b]" ⟨11, 15⟩ :=
    .token read List.mem_cons_self (List.mem_cons_of_mem _ List.mem_cons_self)
  exact ⟨carried, (isSafe_of_carries _).1 _ carried, (isSafe_of_carries _).2⟩

end Apex
