import Apex.Grammar.Statement
import Apex.Proofs.Reading.Expressions

/-!
# When statements are read

The parsers of blocks and statements, each with an equivalence that says what a successful run
consists of.
-/

namespace Apex.Grammar

open Apex.Parser

variable {D : Deeper} {c c' : Cursor}

/-! ## Blocks and variables -/

theorem blockItem_ok {r : Statement × Cursor} :
    blockItem D c = .ok r ↔ c.atEnd = false ∧ D.statement c = .ok r := by
  simp [blockItem]

theorem block_ok {r : Block × Cursor} :
    block D c = .ok r ↔
      c.current.kind = .punctuation .openBrace ∧
      ∃ statements c₁,
        itemsUntil (.punctuation .closeBrace) (blockItem D) c.advance = .ok (statements, c₁) ∧
        c₁.current.kind = .punctuation .closeBrace ∧
        (.mk (c₁.advance.spanFrom c.current.span) statements, c₁.advance) = r := by
  simp [block]

theorem declaratorFrom_ok {name : Ident} {r : Declarator × Cursor} :
    declaratorFrom D name c = .ok r ↔
      (c.current.kind = .operator .assign ∧
        ∃ value c₁, D.assignment c.advance = .ok (value, c₁) ∧
          (⟨c₁.spanFrom name.span, name, some value⟩, c₁) = r) ∨
      (c.current.kind ≠ .operator .assign ∧ (⟨c.spanFrom name.span, name, none⟩, c) = r) := by
  simp [declaratorFrom, expression]

theorem declarator_ok {r : Declarator × Cursor} :
    declarator D c = .ok r ↔
      ∃ name c₁, identifier c = .ok (name, c₁) ∧ declaratorFrom D name c₁ = .ok r := by
  simp [declarator]

theorem declarators_ok {name : Ident} {r : List Declarator × Cursor} :
    declarators D name c = .ok r ↔
      ∃ first c₁, declaratorFrom D name c = .ok (first, c₁) ∧
        commaSeparatedFrom first (declarator D) c₁ = .ok r := by
  simp [declarators]

theorem localVariables_ok {r : LocalVariables × Cursor} :
    localVariables D c = .ok r ↔
      ∃ mods c₁ type c₂ name c₃ declared c₄, modifiers c = .ok (mods, c₁) ∧
        typeRef D.typeRef c₁ = .ok (type, c₂) ∧ identifier c₂ = .ok (name, c₃) ∧
        declarators D name c₃ = .ok (declared, c₄) ∧ (⟨mods, type, declared⟩, c₄) = r := by
  simp [localVariables]

/-! ## Conditions and loops -/

theorem ifLink_ok {start : Span} {r : IfLink × Cursor} :
    ifLink D start c = .ok r ↔
      ∃ condition c₁ yes c₂, parenthesized D c = .ok (condition, c₁) ∧
        D.statement c₁ = .ok (yes, c₂) ∧ (⟨start, condition, yes⟩, c₂) = r := by
  simp [ifLink]

/-- The conditional of a link, given where it ends and what stands behind its `else`. -/
def IfLink.close (link : IfLink) (c : Cursor) : Option Statement → Statement
  | some no => .ifElse (c.spanFrom link.start) link.condition link.yes no
  | none => .ifThen (c.spanFrom link.start) link.condition link.yes

/-- Links, the last one first, around what stands behind the last `else`. -/
def closeLinks (c : Cursor) : List IfLink → Option Statement → Option Statement
  | [], otherwise => otherwise
  | link :: earlier, otherwise => closeLinks c earlier (some (link.close c otherwise))

@[simp] theorem IfLink.statement_ok {link : IfLink} {otherwise : Option Statement}
    {r : Statement × Cursor} :
    link.statement otherwise c = .ok r ↔ (link.close c otherwise, c) = r := by
  cases otherwise <;> simp [IfLink.statement, IfLink.close]

theorem linkUp_ok {links : List IfLink} {otherwise : Option Statement}
    {r : Option Statement × Cursor} :
    linkUp links otherwise c = .ok r ↔ (closeLinks c links otherwise, c) = r := by
  induction links generalizing otherwise with
  | nil => simp [linkUp, closeLinks]
  | cons link earlier ih =>
    rw [linkUp, bind_of_ok (IfLink.statement_ok.mpr rfl)]
    exact ih

@[simp] theorem linkUp_bind_ok {links : List IfLink} {otherwise : Option Statement} {β : Type}
    {f : Option Statement → Parser β} {r : β × Cursor} :
    (linkUp links otherwise >>= f) c = .ok r ↔ f (closeLinks c links otherwise) c = .ok r :=
  bind_of_ok (linkUp_ok.mpr rfl)

theorem elseStep_ok {links : List IfLink}
    {r : Turn (List IfLink) (List IfLink × Option Statement) × Cursor} :
    elseStep D links c = .ok r ↔
      (c.current.kind = .keyword .kwElse ∧ c.advance.current.kind = .keyword .kwIf ∧
        ∃ link c₁, ifLink D c.advance.current.span c.advance.advance = .ok (link, c₁) ∧
          (.again (link :: links), c₁) = r) ∨
      (c.current.kind = .keyword .kwElse ∧ c.advance.current.kind ≠ .keyword .kwIf ∧
        ∃ last c₁, D.statement c.advance = .ok (last, c₁) ∧
          (.done (links, some last), c₁) = r) ∨
      (c.current.kind ≠ .keyword .kwElse ∧ (.done (links, none), c) = r) := by
  simp [elseStep]
  grind

theorem ifStatement_ok {r : Statement × Cursor} :
    ifStatement D c = .ok r ↔
      c.current.kind = .keyword .kwIf ∧
      ∃ first c₁ chain c₂, ifLink D c.current.span c.advance = .ok (first, c₁) ∧
        elseChain D c₁ = .ok (chain, c₂) ∧
        (first.close c₂ (closeLinks c₂ chain.1 chain.2), c₂) = r := by
  simp [ifStatement]

theorem whileStatement_ok {r : Statement × Cursor} :
    whileStatement D c = .ok r ↔
      c.current.kind = .keyword .kwWhile ∧
      ∃ condition c₁ body c₂, parenthesized D c.advance = .ok (condition, c₁) ∧
        D.statement c₁ = .ok (body, c₂) ∧
        (.whileLoop (c₂.spanFrom c.current.span) condition body, c₂) = r := by
  simp [whileStatement]

theorem doStatement_ok {r : Statement × Cursor} :
    doStatement D c = .ok r ↔
      c.current.kind = .keyword .kwDo ∧
      ∃ body c₁, block D c.advance = .ok (body, c₁) ∧ c₁.current.kind = .keyword .kwWhile ∧
        ∃ condition c₂, parenthesized D c₁.advance = .ok (condition, c₂) ∧
          c₂.current.kind = .punctuation .semicolon ∧
          (.doWhile (c₂.advance.spanFrom c.current.span) body condition, c₂.advance) = r := by
  simp [doStatement]

theorem forEachRest_ok {start : Span} {r : Statement × Cursor} :
    forEachRest D start c = .ok r ↔
      ∃ mods c₁ type c₂ name c₃, modifiers c = .ok (mods, c₁) ∧
        typeRef D.typeRef c₁ = .ok (type, c₂) ∧ identifier c₂ = .ok (name, c₃) ∧
        c₃.current.kind = .punctuation .colon ∧
        ∃ items c₄, D.assignment c₃.advance = .ok (items, c₄) ∧
          c₄.current.kind = .punctuation .closeParen ∧
          ∃ body c₅, D.statement c₄.advance = .ok (body, c₅) ∧
            (.forEach (c₅.spanFrom start) mods type name items body, c₅) = r := by
  simp [forEachRest, expression]

theorem forInit_ok {r : ForInit × Cursor} :
    forInit D c = .ok r ↔
      (c.current.kind = .punctuation .semicolon ∧ (.nothing, c) = r) ∨
      (c.current.kind ≠ .punctuation .semicolon ∧
        ∃ declares c₁, localVariablesAhead D c = .ok (declares, c₁) ∧
          ((declares = true ∧ ∃ locals c₂, localVariables D c₁ = .ok (locals, c₂) ∧
            (.declaration (c₂.spanFrom c₁.current.span) locals, c₂) = r) ∨
          (declares = false ∧ ∃ values c₂, commaSeparated D.assignment c₁ = .ok (values, c₂) ∧
            (.expressions values, c₂) = r))) := by
  simp [forInit, expressions, expression]

theorem forLoopRest_ok {start : Span} {r : Statement × Cursor} :
    forLoopRest D start c = .ok r ↔
      ∃ init c₁, forInit D c = .ok (init, c₁) ∧ c₁.current.kind = .punctuation .semicolon ∧
        ∃ condition c₂, optionalExpression D c₁.advance = .ok (condition, c₂) ∧
          c₂.current.kind = .punctuation .semicolon ∧
          ∃ update c₃, expressionsBefore D .closeParen c₂.advance = .ok (update, c₃) ∧
            c₃.current.kind = .punctuation .closeParen ∧
            ∃ body c₄, D.statement c₃.advance = .ok (body, c₄) ∧
              (.forLoop (c₄.spanFrom start) init condition update body, c₄) = r := by
  simp [forLoopRest]

theorem forStatement_ok {r : Statement × Cursor} :
    forStatement D c = .ok r ↔
      c.current.kind = .keyword .kwFor ∧ c.advance.current.kind = .punctuation .openParen ∧
      ∃ each c₁, forEachAhead D c.advance.advance = .ok (each, c₁) ∧
        ((each = true ∧ forEachRest D c.current.span c₁ = .ok r) ∨
        (each = false ∧ forLoopRest D c.current.span c₁ = .ok r)) := by
  simp [forStatement]

/-! ## Exceptions -/

theorem catchClause?_ok {r : Option CatchClause × Cursor} :
    catchClause? D c = .ok r ↔
      (c.current.kind = .keyword .kwCatch ∧
        c.advance.current.kind = .punctuation .openParen ∧
        ∃ mods c₁ type c₂ name c₃, modifiers c.advance.advance = .ok (mods, c₁) ∧
          typeRef D.typeRef c₁ = .ok (type, c₂) ∧ identifier c₂ = .ok (name, c₃) ∧
          c₃.current.kind = .punctuation .closeParen ∧
          ∃ body c₄, block D c₃.advance = .ok (body, c₄) ∧
            (some (.mk (c₄.spanFrom c.current.span) mods type name body), c₄) = r) ∨
      (c.current.kind ≠ .keyword .kwCatch ∧ (none, c) = r) := by
  simp [catchClause?]

theorem tryStatement_ok {r : Statement × Cursor} :
    tryStatement D c = .ok r ↔
      c.current.kind = .keyword .kwTry ∧
      ∃ body c₁ catches c₂, block D c.advance = .ok (body, c₁) ∧
        itemsWhile (catchClause? D) c₁ = .ok (catches, c₂) ∧
        ((c₂.current.kind = .keyword .kwFinally ∧
          ∃ last c₃, block D c₂.advance = .ok (last, c₃) ∧
            (.tryFinally (c₃.spanFrom c.current.span) body catches last, c₃) = r) ∨
        (c₂.current.kind ≠ .keyword .kwFinally ∧ catches.isEmpty = false ∧
          (.tryCatch (c₂.spanFrom c.current.span) body catches, c₂) = r)) := by
  simp [tryStatement]

/-! ## Simple statements -/

theorem returnStatement_ok {r : Statement × Cursor} :
    returnStatement D c = .ok r ↔
      c.current.kind = .keyword .kwReturn ∧
      ∃ value c₁, optionalExpression D c.advance = .ok (value, c₁) ∧
        c₁.current.kind = .punctuation .semicolon ∧
        (.returns (c₁.advance.spanFrom c.current.span) value, c₁.advance) = r := by
  simp [returnStatement]

theorem throwStatement_ok {r : Statement × Cursor} :
    throwStatement D c = .ok r ↔
      c.current.kind = .keyword .kwThrow ∧
      ∃ value c₁, D.assignment c.advance = .ok (value, c₁) ∧
        c₁.current.kind = .punctuation .semicolon ∧
        (.throws (c₁.advance.spanFrom c.current.span) value, c₁.advance) = r := by
  simp [throwStatement, expression]

theorem keywordStatement_ok {k : Keyword} {make : Span → Statement} {r : Statement × Cursor} :
    keywordStatement k make c = .ok r ↔
      c.current.kind = .keyword k ∧ c.advance.current.kind = .punctuation .semicolon ∧
        (make (c.advance.advance.spanFrom c.current.span), c.advance.advance) = r := by
  simp [keywordStatement]

theorem dmlStatement_ok {k : Keyword} {op : DmlOp} {r : Statement × Cursor} :
    dmlStatement D k op c = .ok r ↔
      c.current.kind = .keyword k ∧
      ∃ target c₁, D.assignment c.advance = .ok (target, c₁) ∧
        c₁.current.kind = .punctuation .semicolon ∧
        (.dml (c₁.advance.spanFrom c.current.span) op target, c₁.advance) = r := by
  simp [dmlStatement, expression]

theorem upsertStatement_ok {r : Statement × Cursor} :
    upsertStatement D c = .ok r ↔
      c.current.kind = .keyword .kwUpsert ∧
      ∃ target c₁, D.assignment c.advance = .ok (target, c₁) ∧
        ((c₁.current.kind = .punctuation .semicolon ∧
          (.upsert (c₁.advance.spanFrom c.current.span) target none, c₁.advance) = r) ∨
        (c₁.current.kind ≠ .punctuation .semicolon ∧
          ∃ key c₂, qualifiedName c₁ = .ok (key, c₂) ∧
            c₂.current.kind = .punctuation .semicolon ∧
            (.upsert (c₂.advance.spanFrom c.current.span) target (some key),
              c₂.advance) = r)) := by
  simp [upsertStatement, expression]

theorem mergeStatement_ok {r : Statement × Cursor} :
    mergeStatement D c = .ok r ↔
      c.current.kind = .keyword .kwMerge ∧
      ∃ master c₁ duplicate c₂, D.assignment c.advance = .ok (master, c₁) ∧
        D.assignment c₁ = .ok (duplicate, c₂) ∧ c₂.current.kind = .punctuation .semicolon ∧
        (.merge (c₂.advance.spanFrom c.current.span) master duplicate, c₂.advance) = r := by
  simp [mergeStatement, expression]

theorem runAsStatement_ok {r : Statement × Cursor} :
    runAsStatement D c = .ok r ↔
      c.current.kind.spells .kwSystem = true ∧
        c.advance.current.kind = .punctuation .dot ∧
        c.advance.advance.current.kind.spells .kwRunAs = true ∧
        ∃ user c₁ body c₂, parenthesized D c.advance.advance.advance = .ok (user, c₁) ∧
          block D c₁ = .ok (body, c₂) ∧ (.runAs (c₂.spanFrom c.current.span) user body, c₂) = r := by
  simp [runAsStatement]

theorem variablesStatement_ok {r : Statement × Cursor} :
    variablesStatement D c = .ok r ↔
      ∃ locals c₁, localVariables D c = .ok (locals, c₁) ∧
        c₁.current.kind = .punctuation .semicolon ∧
        (.locals (c₁.advance.spanFrom c.current.span) locals, c₁.advance) = r := by
  simp [variablesStatement]

theorem expressionStatement_ok {r : Statement × Cursor} :
    expressionStatement D c = .ok r ↔
      ∃ value c₁, D.assignment c = .ok (value, c₁) ∧
        c₁.current.kind = .punctuation .semicolon ∧
        (.expression (c₁.advance.spanFrom c.current.span) value, c₁.advance) = r := by
  simp [expressionStatement, expression]

theorem plainStatement_ok {r : Statement × Cursor} :
    plainStatement D c = .ok r ↔
      (c.current.kind = .punctuation .openBrace ∧
        ∃ body c₁, block D c = .ok (body, c₁) ∧ (.block body, c₁) = r) ∨
      (c.current.kind = .punctuation .semicolon ∧
        (.empty c.current.span, c.advance) = r) ∨
      (c.current.kind ≠ .punctuation .openBrace ∧ c.current.kind ≠ .punctuation .semicolon ∧
        runAsAhead c = true ∧ runAsStatement D c = .ok r) ∨
      (c.current.kind ≠ .punctuation .openBrace ∧ c.current.kind ≠ .punctuation .semicolon ∧
        runAsAhead c = false ∧
        ∃ declares c₁, localVariablesAhead D c = .ok (declares, c₁) ∧
          ((declares = true ∧ variablesStatement D c₁ = .ok r) ∨
          (declares = false ∧ expressionStatement D c₁ = .ok r))) := by
  by_cases opened : c.current.kind = .punctuation .openBrace
  · simp [plainStatement, opened]
  · by_cases empty : c.current.kind = .punctuation .semicolon
    · simp [plainStatement, empty]
    · simp [plainStatement, opened, empty]

end Apex.Grammar
