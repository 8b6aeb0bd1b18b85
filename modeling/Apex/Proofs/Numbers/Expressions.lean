import Apex.Proofs.Numbers.Types
import Apex.Proofs.Spans.Expressions

/-!
# Whole numbers of expressions

A literal of an expression carries the number of its token. A minus sign before it is an operator
of its own, and everything else is put together from parts that tally.
-/

namespace Apex

namespace Grammar

open Apex.Parser Node

variable {D : Deeper} {c c₀ c₁ c' : Cursor}

/-! ## Primaries -/

theorem expressions_tallies (hD : D.Tallies) :
    (commaSeparated D.assignment).Tallies Expr.nodes := by
  intro c es c' h
  rw [Expr.nodes_eq_map]
  exact commaSeparated_tallies hD.assignment h

theorem expressionsBefore_tallies (hD : D.Tallies) (close : Punctuation) :
    (expressionsBefore D close).Tallies Expr.nodes := by
  intro c es c' h
  rcases expressionsBefore_ok.mp h with ⟨_, done⟩ | ⟨_, run⟩
  · cases done
    exact .nil (.refl _)
  · exact expressions_tallies hD run

theorem optionalExpression_tallies (hD : D.Tallies) :
    (optionalExpression D).Tallies fun e => (e.map Expr.node).toList := by
  intro c e c' h
  rcases optionalExpression_ok.mp h with ⟨_, done⟩ | ⟨_, value, c₁, run, done⟩
  · cases done
    exact .nil (.refl _)
  · cases done
    exact hD.assignment run

theorem arguments_tallies (hD : D.Tallies) : (arguments D).Tallies Expr.nodes := by
  intro c es c' h
  obtain ⟨opened, args, c₁, run, closed, done⟩ := arguments_ok.mp h
  cases done
  exact ((expressionsBefore_tallies hD _ run).after (Cursor.silent_advance opened rfl)).before
    (Cursor.silent_advance closed rfl)

theorem parenthesized_tallies (hD : D.Tallies) :
    (parenthesized D).Tallies fun e => [e.node] := by
  intro c inner c' h
  obtain ⟨opened, inner, c₁, run, closed, done⟩ := parenthesized_ok.mp h
  cases done
  exact ((hD.assignment run).after (Cursor.silent_advance opened rfl)).before
    (Cursor.silent_advance closed rfl)

/-- A key and the value behind its arrow make an entry. -/
theorem entry_tally (hD : D.Tallies) {key value : Expr} (hk : Tally false [key.node] c c₁)
    (run : entryValue D c₁ = .ok (value, c')) :
    Tally false [Expr.entryNode (key, value)] c c' := by
  obtain ⟨arrow, run⟩ := entryValue_ok.mp run
  exact (hk.cons ((hD.assignment run).after (Cursor.silent_advance arrow rfl))).around rfl

theorem mapEntry_tallies (hD : D.Tallies) :
    (mapEntry D).Tallies fun entry => [Expr.entryNode entry] := by
  intro c entry c' h
  obtain ⟨key, c₁, value, c₂, first, run, done⟩ := mapEntry_ok.mp h
  cases done
  exact entry_tally hD (hD.assignment first) run

theorem braceCreator_tally (hD : D.Tallies) {start : Span} {type : TypeRef} {e : Expr}
    (ht : Tally false [type.node] c₀ c) (h : braceCreator D start type c = .ok (e, c')) :
    Tally false [e.node] c₀ c' := by
  rcases braceCreator_ok.mp h with ⟨closed, done⟩ | ⟨_, head, c₂, run, rest⟩
  · have tally := ht.before (Cursor.silent_advance closed rfl)
    split at done
    · cases done
      exact tally.around rfl
    · cases done
      exact tally.around rfl
  · have hh := hD.assignment run
    rcases rest with
      ⟨_, value, c₃, entries, c₄, arrow, run, closed, done⟩ | ⟨_, elements, c₃, run, closed, done⟩
    · cases done
      obtain ⟨more, rfl, items, _⟩ := commaSeparatedFrom_items run
      have tally := (entry_tally hD hh arrow).cons (commaItems_tally (mapEntry_tallies hD) items)
      rw [← List.map_cons, ← Expr.entryNodes_eq_map] at tally
      exact (ht.cons (tally.before (Cursor.silent_advance closed rfl))).around rfl
    · cases done
      obtain ⟨more, rfl, items, _⟩ := commaSeparatedFrom_items run
      have tally := hh.cons (commaItems_tally hD.assignment items)
      rw [← List.map_cons, ← Expr.nodes_eq_map] at tally
      exact (ht.cons (tally.before (Cursor.silent_advance closed rfl))).around rfl

theorem bracketCreator_tally (hD : D.Tallies) {start : Span} {type : TypeRef} {e : Expr}
    (ht : Tally false [type.node] c₀ c) (h : bracketCreator D start type c = .ok (e, c')) :
    Tally false [e.node] c₀ c' := by
  rcases bracketCreator_ok.mp h with
    ⟨bracket, brace, elements, c₂, run, closed, done⟩ | ⟨_, size, c₂, run, closed, done⟩
  · cases done
    have gap := (Cursor.silent_advance bracket rfl).trans (Cursor.silent_advance brace rfl)
    have elements := (expressionsBefore_tallies hD _ run).after gap
    exact (ht.cons (elements.before (Cursor.silent_advance closed rfl))).around rfl
  · cases done
    exact (ht.cons ((hD.assignment run).before (Cursor.silent_advance closed rfl))).around rfl

theorem creator_tally (hD : D.Tallies) {start : Span} {e : Expr}
    (h : creator D start c = .ok (e, c')) : Tally false [e.node] c c' := by
  obtain ⟨type, c₁, run, rest⟩ := creator_ok.mp h
  have ht := elementType_tallies hD.typeRef run
  rcases rest with ⟨_, args, c₂, run, done⟩ | ⟨opened, run⟩ | ⟨opened, run⟩
  · cases done
    exact (ht.cons (arguments_tallies hD run)).around rfl
  · exact bracketCreator_tally hD (ht.before (Cursor.silent_advance opened rfl)) run
  · exact braceCreator_tally hD (ht.before (Cursor.silent_advance opened rfl)) run

theorem whole?_of_literalOf? {k : TokenKind} {value : Literal} (h : literalOf? k = some value) :
    value.whole? = k.whole? := by
  unfold literalOf? at h
  split at h <;> cases h <;> rfl

theorem wordAlone?_tally {found : String × Expr} (h : wordAlone? c.current = some found) :
    c.Numberless c.advance ∧ Tally false [found.2.node] c c.advance := by
  have word : ∀ {k : TokenKind} {element : Element}, c.current.kind = k → k.whole? = none →
      element.isPlain = true →
      c.Numberless c.advance ∧ Tally false [.leaf element c.current.span] c c.advance :=
    fun hk other plain =>
      have gap := Cursor.numberless_advance hk other
      ⟨gap, .leaf plain gap⟩
  unfold wordAlone? at h
  split at h
  · next hk =>
    cases h
    exact word hk rfl rfl
  · next hk =>
    cases h
    exact word hk rfl rfl
  · next hk =>
    cases h
    exact word hk rfl rfl
  · cases h

theorem wordOrCall_tally (hD : D.Tallies) {word : Ident} {alone e : Expr}
    (gap : c.Numberless c.advance) (ha : Tally false [alone.node] c c.advance)
    (h : wordOrCall D word alone c = .ok (e, c')) : Tally false [e.node] c c' := by
  rcases wordOrCall_ok.mp h with ⟨_, args, c₁, run, done⟩ | ⟨_, done⟩
  · cases done
    have name : Tally false [word.identifierNode] c c.advance := .leaf rfl gap
    exact (name.cons (arguments_tallies hD run)).around rfl
  · cases done
    exact ha

theorem primary_tallies (hD : D.Tallies) : (primary D).Tallies fun e => [e.node] := by
  intro c e c' h
  rcases primary_ok.mp h with ⟨value, literal, done⟩ | ⟨found, word, run⟩ | ⟨hk, run⟩ |
    ⟨hk, done⟩ | ⟨hk, inner, c₁, run, done⟩
  · cases done
    exact tally_literal (Cursor.isEnd_of_some literal rfl) (whole?_of_literalOf? literal) nofun
  · obtain ⟨gap, alone⟩ := wordAlone?_tally word
    exact wordOrCall_tally hD gap alone run
  · exact (creator_tally hD run).after (Cursor.silent_advance hk rfl)
  · cases done
    exact .leaf rfl (Cursor.numberless_advance hk rfl)
  · cases done
    exact (parenthesized_tallies hD run).around rfl

/-! ## Chains and operators -/

/-- What a loop has read tallies from where it began, turn after turn. -/
theorem tally_of_iterates {step : Expr → Parser (Turn Expr Expr)} {first result : Expr}
    (hstep : ∀ {e c turn c₁}, Tally false [e.node] c₀ c → step e c = .ok (turn, c₁) →
      Tally false [(reached turn).node] c₀ c₁)
    (loop : Iterates step first c result c') (h : Tally false [first.node] c₀ c) :
    Tally false [result.node] c₀ c' := by
  induction loop with
  | done run => exact hstep h run
  | again run _ ih => exact ih (hstep h run)

theorem postfixStep_tally (hD : D.Tallies) {operand : Expr} {turn : Turn Expr Expr}
    (ho : Tally false [operand.node] c₀ c) (h : postfixStep D operand c = .ok (turn, c')) :
    Tally false [(reached turn).node] c₀ c' := by
  rcases postfixStep_ok.mp h with ⟨dot, part, c₁, name, rest⟩ |
    ⟨opened, position, c₁, run, closed, done⟩ | ⟨op, found, done⟩ | ⟨_, _, _, done⟩
  · have hp := (memberName_tallies name).after (Cursor.silent_advance dot rfl)
    rcases rest with ⟨_, args, c₂, run, done⟩ | ⟨_, done⟩
    · cases done
      exact (ho.cons (hp.cons (arguments_tallies hD run))).around rfl
    · cases done
      exact (ho.cons hp).around rfl
  · cases done
    have inner := (hD.assignment run).after (Cursor.silent_advance opened rfl)
    exact (ho.cons (inner.before (Cursor.silent_advance closed rfl))).around rfl
  · cases done
    exact (ho.before (operator_lead found).silent).around rfl
  · cases done
    exact ho

theorem postfixChain_tallies (hD : D.Tallies) : (postfixChain D).Tallies fun e => [e.node] := by
  intro c e c' h
  obtain ⟨first, c₁, run, loop⟩ := postfixChain_ok.mp h
  exact tally_of_iterates (postfixStep_tally hD) (iterates_of_iterate loop)
    (primary_tallies hD run)

theorem unary_tallies (hD : D.Tallies) : (unary D).Tallies fun e => [e.node] := by
  intro c e c' h
  rcases unary_ok.mp h with ⟨op, found, operand, c₁, run, done⟩ |
    ⟨op, found, operand, c₁, run, done⟩ |
    ⟨cast, type, c₁, ht, closed, operand, c₂, run, done⟩ | ⟨_, _, _, run⟩
  · cases done
    exact ((hD.unary run).after (operator_lead found).silent).around rfl
  · cases done
    exact ((hD.unary run).after (operator_lead found).silent).around rfl
  · cases done
    have ht := (typeRef_tallies hD.typeRef ht).after
      (Cursor.silent_advance (castAhead_openParen cast) rfl)
    have ho := (hD.unary run).after (Cursor.silent_advance closed rfl)
    exact (ht.cons ho).around rfl
  · exact postfixChain_tallies hD run

theorem binaryStep_tally (hD : D.Tallies) {level : BinaryLevel} {operand : Parser Expr}
    (hop : operand.Tallies fun e => [e.node]) {left : Expr} {turn : Turn Expr Expr}
    (hl : Tally false [left.node] c₀ c)
    (h : binaryStep D level operand left c = .ok (turn, c')) :
    Tally false [(reached turn).node] c₀ c' := by
  rcases binaryStep_ok.mp h with ⟨_, test, type, c₁, run, done⟩ |
    ⟨found, ahead, right, c₁, run, done⟩ | ⟨_, _, done⟩
  · cases done
    have ht := typeRef_tallies hD.typeRef run
    exact (hl.cons (ht.after (Cursor.silent_advance test rfl))).around rfl
  · cases done
    exact (hl.cons ((hop run).after (binaryAhead?_silent ahead))).around rfl
  · cases done
    exact hl

theorem binaryChain_tallies (hD : D.Tallies) (levels : List BinaryLevel) :
    (binaryChain D levels).Tallies fun e => [e.node] := by
  induction levels with
  | nil => exact unary_tallies hD
  | cons level tighter ih =>
    intro c e c' h
    obtain ⟨first, c₁, run, loop⟩ := binaryChain_ok.mp h
    exact tally_of_iterates (binaryStep_tally hD ih) (iterates_of_iterate loop) (ih run)

theorem ternary_tallies (hD : D.Tallies) : (ternary D).Tallies fun e => [e.node] := by
  intro c e c' h
  obtain ⟨condition, c₁, run, rest⟩ := ternary_ok.mp h
  have hc := binaryChain_tallies hD _ run
  rcases rest with ⟨question, yes, c₂, run, colon, no, c₃, run', done⟩ | ⟨_, done⟩
  · cases done
    have hy := (hD.assignment run).after (Cursor.silent_advance question rfl)
    have hn := (hD.ternary run').after (Cursor.silent_advance colon rfl)
    exact (hc.cons (hy.cons hn)).around rfl
  · cases done
    exact hc

theorem assignment_tallies (hD : D.Tallies) : (assignment D).Tallies fun e => [e.node] := by
  intro c e c' h
  obtain ⟨target, c₁, run, rest⟩ := assignment_ok.mp h
  have ht := ternary_tallies hD run
  rcases rest with ⟨found, ahead, value, c₂, run, done⟩ | ⟨_, done⟩
  · cases done
    exact (ht.cons ((hD.assignment run).after (assignAhead?_silent ahead))).around rfl
  · cases done
    exact ht

end Grammar

end Apex
