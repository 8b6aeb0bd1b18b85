import Apex.Grammar.Expr
import Apex.Proofs.Reading.Types

/-!
# When expressions are read

The parsers of expressions, each with an equivalence that says what a successful run consists of.
-/

namespace Apex.Grammar

open Apex.Parser

variable {D : Deeper} {c c' : Cursor}

/-! ## Primaries -/

theorem expressionsBefore_ok {close : Punctuation} {r : List Expr × Cursor} :
    expressionsBefore D close c = .ok r ↔
      (c.current.kind = .punctuation close ∧ ([], c) = r) ∨
      (c.current.kind ≠ .punctuation close ∧ commaSeparated D.assignment c = .ok r) := by
  simp [expressionsBefore, expressions, expression]

theorem optionalExpression_ok {r : Option Expr × Cursor} :
    optionalExpression D c = .ok r ↔
      (c.current.kind = .punctuation .semicolon ∧ (none, c) = r) ∨
      (c.current.kind ≠ .punctuation .semicolon ∧
        ∃ value c₁, D.assignment c = .ok (value, c₁) ∧ (some value, c₁) = r) := by
  simp [optionalExpression, expression]

theorem arguments_ok {r : List Expr × Cursor} :
    arguments D c = .ok r ↔
      c.current.kind = .punctuation .openParen ∧
      ∃ args c₁, expressionsBefore D .closeParen c.advance = .ok (args, c₁) ∧
        c₁.current.kind = .punctuation .closeParen ∧ (args, c₁.advance) = r := by
  simp [arguments]

theorem parenthesized_ok {r : Expr × Cursor} :
    parenthesized D c = .ok r ↔
      c.current.kind = .punctuation .openParen ∧
      ∃ inner c₁, D.assignment c.advance = .ok (inner, c₁) ∧
        c₁.current.kind = .punctuation .closeParen ∧ (inner, c₁.advance) = r := by
  simp [parenthesized, expression]

theorem entryValue_ok {r : Expr × Cursor} :
    entryValue D c = .ok r ↔
      c.current.kind = .punctuation .arrow ∧ D.assignment c.advance = .ok r := by
  simp [entryValue, expression]

theorem mapEntry_ok {r : (Expr × Expr) × Cursor} :
    mapEntry D c = .ok r ↔
      ∃ key c₁ value c₂, D.assignment c = .ok (key, c₁) ∧ entryValue D c₁ = .ok (value, c₂) ∧
        ((key, value), c₂) = r := by
  simp [mapEntry, expression]

theorem braceCreator_ok {start : Span} {type : TypeRef} {r : Expr × Cursor} :
    braceCreator D start type c = .ok r ↔
      (c.current.kind = .punctuation .closeBrace ∧
        (if sameWord "map" type.simpleName then .newMap (c.advance.spanFrom start) type []
          else .newCollection (c.advance.spanFrom start) type [], c.advance) = r) ∨
      (c.current.kind ≠ .punctuation .closeBrace ∧
        ∃ first c₁, D.assignment c = .ok (first, c₁) ∧
          ((c₁.current.kind = .punctuation .arrow ∧
            ∃ value c₂ entries c₃, entryValue D c₁ = .ok (value, c₂) ∧
              commaSeparatedFrom (first, value) (mapEntry D) c₂ = .ok (entries, c₃) ∧
              c₃.current.kind = .punctuation .closeBrace ∧
              (.newMap (c₃.advance.spanFrom start) type entries, c₃.advance) = r) ∨
          (c₁.current.kind ≠ .punctuation .arrow ∧
            ∃ elements c₂, commaSeparatedFrom first D.assignment c₁ = .ok (elements, c₂) ∧
              c₂.current.kind = .punctuation .closeBrace ∧
              (.newCollection (c₂.advance.spanFrom start) type elements, c₂.advance) = r))) := by
  simp [braceCreator, expression]

theorem bracketCreator_ok {start : Span} {type : TypeRef} {r : Expr × Cursor} :
    bracketCreator D start type c = .ok r ↔
      (c.current.kind = .punctuation .closeBracket ∧
        c.advance.current.kind = .punctuation .openBrace ∧
        ∃ elements c₁, expressionsBefore D .closeBrace c.advance.advance = .ok (elements, c₁) ∧
          c₁.current.kind = .punctuation .closeBrace ∧
          (.newArrayOf (c₁.advance.spanFrom start) type elements, c₁.advance) = r) ∨
      (c.current.kind ≠ .punctuation .closeBracket ∧
        ∃ size c₁, D.assignment c = .ok (size, c₁) ∧
          c₁.current.kind = .punctuation .closeBracket ∧
          (.newArray (c₁.advance.spanFrom start) type size, c₁.advance) = r) := by
  simp [bracketCreator, expression]

theorem creator_ok {start : Span} {r : Expr × Cursor} :
    creator D start c = .ok r ↔
      ∃ type c₁, elementType D.typeRef c = .ok (type, c₁) ∧
        ((c₁.current.kind = .punctuation .openParen ∧
          ∃ args c₂, arguments D c₁ = .ok (args, c₂) ∧
            (.newObject (c₂.spanFrom start) type args, c₂) = r) ∨
        (c₁.current.kind = .punctuation .openBracket ∧
          bracketCreator D start type c₁.advance = .ok r) ∨
        (c₁.current.kind = .punctuation .openBrace ∧
          braceCreator D start type c₁.advance = .ok r)) := by
  simp [creator]
  grind

theorem wordOrCall_ok {word : Ident} {alone : Expr} {r : Expr × Cursor} :
    wordOrCall D word alone c = .ok r ↔
      (c.advance.current.kind = .punctuation .openParen ∧
        ∃ args c₁, arguments D c.advance = .ok (args, c₁) ∧
          (.call (c₁.spanFrom word.span) word args, c₁) = r) ∨
      (c.advance.current.kind ≠ .punctuation .openParen ∧ (alone, c.advance) = r) := by
  simp [wordOrCall]

/-- The word that a primary may start with, and the expression it is without arguments. -/
def wordAlone? (t : Token) : Option (String × Expr) :=
  match t.kind with
  | .keyword .kwThis => some ("this", .this t.span)
  | .keyword .kwSuper => some ("super", .super t.span)
  | .name text => some (text, .name t.span text)
  | _ => none

theorem primary_ok {r : Expr × Cursor} :
    primary D c = .ok r ↔
      (∃ value, literalOf? c.current.kind = some value ∧
        (.literal c.current.span value, c.advance) = r) ∨
      (∃ found, wordAlone? c.current = some found ∧
        wordOrCall D ⟨found.1, c.current.span⟩ found.2 c = .ok r) ∨
      (c.current.kind = .keyword .kwNew ∧ creator D c.current.span c.advance = .ok r) ∨
      (c.current.kind = .keyword .kwTrigger ∧
        (.name c.current.span (c.current.writtenWord?.getD "trigger"), c.advance) = r) ∨
      (c.current.kind = .punctuation .openParen ∧
        ∃ inner c₁, parenthesized D c = .ok (inner, c₁) ∧
          (.paren (c₁.spanFrom c.current.span) inner, c₁) = r) := by
  rw [primary, current_bind_ok]
  unfold wordAlone?
  cases c.current.kind with
  | keyword k => cases k <;> simp [literalOf?]
  | punctuation p => cases p <;> simp [literalOf?]
  | _ => simp [literalOf?]

/-! ## Chains and operators -/

theorem postfixStep_ok {operand : Expr} {r : Turn Expr Expr × Cursor} :
    postfixStep D operand c = .ok r ↔
      (c.current.kind = .punctuation .dot ∧
        ∃ part c₁, memberName c.advance = .ok (part, c₁) ∧
          ((c₁.current.kind = .punctuation .openParen ∧
            ∃ args c₂, arguments D c₁ = .ok (args, c₂) ∧
              (.again (.methodCall (c₂.spanFrom operand.span) operand part args), c₂) = r) ∨
          (c₁.current.kind ≠ .punctuation .openParen ∧
            (.again (.member (operand.span.merge part.span) operand part), c₁) = r))) ∨
      (c.current.kind = .punctuation .openBracket ∧
        ∃ position c₁, D.assignment c.advance = .ok (position, c₁) ∧
          c₁.current.kind = .punctuation .closeBracket ∧
          (.again (.index (c₁.advance.spanFrom operand.span) operand position),
            c₁.advance) = r) ∨
      (∃ op, c.current.kind.operator?.bind stepOp? = some op ∧
        (.done (.stepAfter (c.advance.spanFrom operand.span) op operand), c.advance) = r) ∨
      (c.current.kind ≠ .punctuation .dot ∧ c.current.kind ≠ .punctuation .openBracket ∧
        c.current.kind.operator?.bind stepOp? = none ∧ (.done operand, c) = r) := by
  rw [postfixStep]
  by_cases dot : c.current.kind = .punctuation .dot
  · simp [dot, TokenKind.operator?]
  · by_cases bracket : c.current.kind = .punctuation .openBracket
    · simp [bracket, TokenKind.operator?, expression]
    · cases h : c.current.kind.operator?.bind stepOp? <;> simp [dot, bracket, h]

theorem postfixChain_ok {r : Expr × Cursor} :
    postfixChain D c = .ok r ↔
      ∃ first c₁, primary D c = .ok (first, c₁) ∧ iterate (postfixStep D) first c₁ = .ok r := by
  simp [postfixChain]

theorem castAhead_openParen (h : castAhead c = true) :
    c.current.kind = .punctuation .openParen := by
  unfold castAhead at h
  simp only [Bool.and_eq_true, beq_iff_eq] at h
  exact h.1

theorem not_castAhead (h : c.current.kind ≠ .punctuation .openParen) : castAhead c = false :=
  Bool.eq_false_iff.mpr fun cast => h (castAhead_openParen cast)

theorem unary_ok {r : Expr × Cursor} :
    unary D c = .ok r ↔
      (∃ op, c.current.kind.operator?.bind unaryOp? = some op ∧
        ∃ operand c₁, D.unary c.advance = .ok (operand, c₁) ∧
          (.unary (c.current.span.merge operand.span) op operand, c₁) = r) ∨
      (∃ op, c.current.kind.operator?.bind stepOp? = some op ∧
        ∃ operand c₁, D.unary c.advance = .ok (operand, c₁) ∧
          (.stepBefore (c.current.span.merge operand.span) op operand, c₁) = r) ∨
      (castAhead c = true ∧
        ∃ type c₁, typeRef D.typeRef c.advance = .ok (type, c₁) ∧
          c₁.current.kind = .punctuation .closeParen ∧
          ∃ operand c₂, D.unary c₁.advance = .ok (operand, c₂) ∧
            (.cast (c.current.span.merge operand.span) type operand, c₂) = r) ∨
      (castAhead c = false ∧ c.current.kind.operator?.bind unaryOp? = none ∧
        c.current.kind.operator?.bind stepOp? = none ∧ postfixChain D c = .ok r) := by
  rw [unary, here_bind_ok, kind_bind_ok]
  cases hk : c.current.kind with
  | operator o =>
    have hc : castAhead c = false := not_castAhead (by simp [hk])
    cases o <;> simp [TokenKind.operator?, unaryOp?, stepOp?, hc]
  | punctuation p =>
    cases hc : castAhead c
    · simp [TokenKind.operator?, hc]
    · have := castAhead_openParen hc
      simp [TokenKind.operator?, hc, this]
  | _ =>
    cases hc : castAhead c
    · simp [TokenKind.operator?, hc]
    · rw [castAhead_openParen hc] at hk
      cases hk

theorem binaryStep_ok {level : BinaryLevel} {operand : Parser Expr} {left : Expr}
    {r : Turn Expr Expr × Cursor} :
    binaryStep D level operand left c = .ok r ↔
      (level = .comparison ∧ c.current.kind = .keyword .kwInstanceOf ∧
        ∃ type c₁, typeRef D.typeRef c.advance = .ok (type, c₁) ∧
          (.again (.instanceOf (left.span.merge type.span) left type), c₁) = r) ∨
      (∃ found, binaryAhead? level c = some found ∧
        ∃ right c₁, operand (c.advances found.2) = .ok (right, c₁) ∧
          (.again (.binary (left.span.merge right.span) left found.1 right), c₁) = r) ∨
      (¬(level = .comparison ∧ c.current.kind = .keyword .kwInstanceOf) ∧
        binaryAhead? level c = none ∧ (.done left, c) = r) := by
  rw [binaryStep, kind_bind_ok]
  by_cases test : level = .comparison ∧ c.current.kind = .keyword .kwInstanceOf
  · obtain ⟨rfl, test⟩ := test
    have noOperator : binaryAhead? .comparison c = none := by
      simp [binaryAhead?, operatorAhead?, composedAhead?, test]
    simp [test, noOperator]
  · have other : ∀ P : Prop, (level = .comparison ∧ c.current.kind = .keyword .kwInstanceOf ∧ P) ↔
        False := fun P => ⟨fun h => test ⟨h.1, h.2.1⟩, False.elim⟩
    rw [other, false_or]
    cases h : binaryAhead? level c <;> simp [test, h]

theorem binaryChain_ok {level : BinaryLevel} {tighter : List BinaryLevel} {r : Expr × Cursor} :
    binaryChain D (level :: tighter) c = .ok r ↔
      ∃ first c₁, binaryChain D tighter c = .ok (first, c₁) ∧
        iterate (binaryStep D level (binaryChain D tighter)) first c₁ = .ok r := by
  simp [binaryChain]

theorem ternary_ok {r : Expr × Cursor} :
    ternary D c = .ok r ↔
      ∃ condition c₁, binaryChain D binaryLevels c = .ok (condition, c₁) ∧
        ((c₁.current.kind = .punctuation .question ∧
          ∃ yes c₂, D.assignment c₁.advance = .ok (yes, c₂) ∧
            c₂.current.kind = .punctuation .colon ∧
            ∃ no c₃, D.ternary c₂.advance = .ok (no, c₃) ∧
              (.ternary (condition.span.merge no.span) condition yes no, c₃) = r) ∨
        (c₁.current.kind ≠ .punctuation .question ∧ (condition, c₁) = r)) := by
  simp [ternary, expression]

theorem assignment_ok {r : Expr × Cursor} :
    assignment D c = .ok r ↔
      ∃ target c₁, ternary D c = .ok (target, c₁) ∧
        ((∃ found, assignAhead? c₁ = some found ∧
          ∃ value c₂, D.assignment (c₁.advances found.2) = .ok (value, c₂) ∧
            (.assignment (target.span.merge value.span) target found.1 value, c₂) = r) ∨
        (assignAhead? c₁ = none ∧ (target, c₁) = r)) := by
  rw [assignment, bind_ok]
  refine exists_congr fun target => exists_congr fun c₁ => and_congr_right fun _ => ?_
  rw [get_bind_ok]
  cases assignAhead? c₁ <;> simp

end Apex.Grammar
