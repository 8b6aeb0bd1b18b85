import Apex.Proofs.Blur.Headers

/-!
# Expressions through a blur

Every level of expressions is read without seeing through a blur. The one thing that is known of
places is whether `>` tokens touch, and that is what composed operators are told by.
-/

namespace Apex.Grammar

open Apex.Parser Apex.Parser.Like

variable {b : Blur} {D : Deeper}

/-! ## Operators -/

theorem composedAhead?_like {c d : Cursor} (like : c.Like b d) :
    composedAhead? c = composedAhead? d := by
  have kinds (n : Nat) (o : Operator) :
      (c.peek n).kind = .operator o ↔ (d.peek n).kind = .operator o :=
    (like.peek n).kind.eq_iff rfl
  have zero : c.current.kind = .operator .greater ↔ d.current.kind = .operator .greater :=
    like.current.kind.eq_iff rfl
  have touching0 := like.touching (i := 0)
  have touching1 := like.touching (i := 1)
  rw [c.peek_zero] at touching0
  unfold composedAhead?
  grind

theorem operatorAhead?_like {c d : Cursor} (like : c.Like b d) :
    operatorAhead? c = operatorAhead? d := by
  have kind := like.current.kind
  unfold operatorAhead?
  rw [composedAhead?_like like]
  split
  · rfl
  · generalize c.current.kind = k at kind ⊢
    generalize d.current.kind = k' at kind ⊢
    cases kind <;> rfl

theorem binaryAhead?_like {c d : Cursor} (like : c.Like b d) (level : BinaryLevel) :
    binaryAhead? level c = binaryAhead? level d := by
  unfold binaryAhead?
  rw [operatorAhead?_like like]

theorem assignAhead?_like {c d : Cursor} (like : c.Like b d) :
    assignAhead? c = assignAhead? d := by
  unfold assignAhead?
  rw [operatorAhead?_like like]

/-! ## Primaries -/

theorem literalOf?_like {k k' : TokenKind} (like : k.Like b k') :
    (literalOf? k).map (Literal.blur b) = (literalOf? k').map (Literal.blur b) := by
  cases like with
  | refl | name => rfl
  | soql same => exact congrArg (fun q => some (Literal.soql q)) same
  | sosl same => exact congrArg (fun q => some (Literal.sosl q)) same

theorem expressions_like (h : D.Like b) :
    Like b (List.map (Expr.blur b)) (expressions D) (expressions D) := commaSeparated h.assignment

theorem expressionsBefore_like (h : D.Like b) (close : Punctuation) :
    Like b (List.map (Expr.blur b)) (expressionsBefore D close) (expressionsBefore D close) :=
  bindSame (isAt rfl) fun _ => ite (pure rfl) (expressions_like h)

theorem optionalExpression_like (h : D.Like b) :
    Like b (Option.map (Expr.blur b)) (optionalExpression D) (optionalExpression D) :=
  bindSame (isAt rfl) fun _ => ite (pure rfl) (map h.assignment fun _ _ => congrArg some)

theorem arguments_like (h : D.Like b) :
    Like b (List.map (Expr.blur b)) (arguments D) (arguments D) := by
  refine bind (expect rfl) fun _ _ _ => bind (expressionsBefore_like h _) fun args args' ha => ?_
  exact bind (expect rfl) fun _ _ _ => pure ha

theorem parenthesized_like (h : D.Like b) :
    Like b (Expr.blur b) (parenthesized D) (parenthesized D) := by
  refine bind (expect rfl) fun _ _ _ => bind h.assignment fun inner inner' hi => ?_
  exact bind (expect rfl) fun _ _ _ => pure hi

theorem entryValue_like (h : D.Like b) : Like b (Expr.blur b) (entryValue D) (entryValue D) :=
  bind (expect rfl) fun _ _ _ => h.assignment

theorem mapEntry_like (h : D.Like b) :
    Like b (Prod.map (Expr.blur b) (Expr.blur b)) (mapEntry D) (mapEntry D) := by
  refine bind h.assignment fun key key' hk => ?_
  refine bind (entryValue_like h) fun value value' hv => pure ?_
  simp only [Prod.map, hk, hv]

theorem braceCreator_like (h : D.Like b) {start start' : Span} {type type' : TypeRef}
    (hs : b.span start = b.span start') (ht : type.blur b = type'.blur b) :
    Like b (Expr.blur b) (braceCreator D start type) (braceCreator D start' type') := by
  refine bindSame (accept rfl) fun empty => ite ?_ ?_
  · refine bind (spanFrom hs) fun span span' same => pure ?_
    have isMap : sameWord "map" type.simpleName = sameWord "map" type'.simpleName := by
      simp only [sameWord, TypeRef.simpleName_like ht]
    rw [isMap]
    cases sameWord "map" type'.simpleName <;>
      simp [Expr.blur, same, ht, Expr.blurEntries, Expr.blurAll]
  refine bind h.assignment fun first first' hf => bindSame (isAt rfl) fun isMap => ite ?_ ?_
  · refine bind (entryValue_like h) fun value value' hv => ?_
    refine bind (commaSeparatedFrom (by simp only [Prod.map, hf, hv]) (mapEntry_like h))
      fun entries entries' he => ?_
    refine bind (expect rfl) fun _ _ _ => bind (spanFrom hs) fun span span' same => pure ?_
    simp only [Expr.blur, Expr.blurEntries_eq_map, same, ht, he]
  · refine bind (commaSeparatedFrom hf h.assignment) fun elements elements' he => ?_
    refine bind (expect rfl) fun _ _ _ => bind (spanFrom hs) fun span span' same => pure ?_
    simp only [Expr.blur, Expr.blurAll_eq_map, same, ht, he]

theorem bracketCreator_like (h : D.Like b) {start start' : Span} {type type' : TypeRef}
    (hs : b.span start = b.span start') (ht : type.blur b = type'.blur b) :
    Like b (Expr.blur b) (bracketCreator D start type) (bracketCreator D start' type') := by
  refine bindSame (accept rfl) fun empty => ite ?_ ?_
  · refine bind (expect rfl) fun _ _ _ => ?_
    refine bind (expressionsBefore_like h _) fun elements elements' he => ?_
    refine bind (expect rfl) fun _ _ _ => bind (spanFrom hs) fun span span' same => pure ?_
    simp only [Expr.blur, Expr.blurAll_eq_map, same, ht, he]
  · refine bind h.assignment fun size size' hz => bind (expect rfl) fun _ _ _ => ?_
    refine bind (spanFrom hs) fun span span' same => pure ?_
    simp only [Expr.blur, same, ht, hz]

theorem creator_like (h : D.Like b) {start start' : Span} (hs : b.span start = b.span start') :
    Like b (Expr.blur b) (creator D start) (creator D start') := by
  refine bind (elementType_like h.typeRef) fun type type' ht => bindSame (isAt rfl) fun object => ?_
  refine ite ?_ (bindSame (accept rfl) fun bracket => ite (bracketCreator_like h hs ht) ?_)
  · refine bind (arguments_like h) fun args args' ha => bind (spanFrom hs) fun span span' same => ?_
    refine pure ?_
    simp only [Expr.blur, Expr.blurAll_eq_map, same, ht, ha]
  · exact bindSame (accept rfl) fun brace => ite (braceCreator_like h hs ht) (fail _)

theorem wordOrCall_like (h : D.Like b) {word word' : Ident} {alone alone' : Expr}
    (hw : Ident.blur b word = Ident.blur b word') (ha : alone.blur b = alone'.blur b) :
    Like b (Expr.blur b) (wordOrCall D word alone) (wordOrCall D word' alone') := by
  refine bindSame advance fun _ => bindSame (isAt rfl) fun call => ite ?_ (pure ha)
  refine bind (arguments_like h) fun args args' hargs => ?_
  refine bind (spanFrom (Ident.span_like hw)) fun span span' same => pure ?_
  simp only [Expr.blur, Expr.blurAll_eq_map, same, hw, hargs]

theorem primary_like (h : D.Like b) : Like b (Expr.blur b) (primary D) (primary D) := by
  refine currentBind fun t t' ht => ?_
  have literal := literalOf?_like ht.kind
  have kind := ht.kind
  have word := ht.word
  have hs := ht.span
  dsimp only
  cases hl : literalOf? t.kind <;> cases hl' : literalOf? t'.kind <;>
    simp only [hl, hl', Option.map, reduceCtorEq, Option.some.injEq] at literal
  case some.some =>
    refine bindSame advance fun _ => pure ?_
    simp only [Expr.blur, hs, literal]
  case none.none =>
    dsimp only
    generalize t.kind = k at kind hl ⊢
    generalize t'.kind = k' at kind hl' ⊢
    cases kind with
    | soql | sosl => exact nomatch hl
    | name same =>
      exact wordOrCall_like h (by simp only [Ident.blur, same, hs])
        (by simp only [Expr.blur, same, hs])
    | refl =>
      split
      · exact wordOrCall_like h (by simp only [Ident.blur, hs]) (by simp only [Expr.blur, hs])
      · exact wordOrCall_like h (by simp only [Ident.blur, hs]) (by simp only [Expr.blur, hs])
      · exact bindSame advance fun _ => creator_like h hs
      · refine bindSame advance fun _ => pure ?_
        have text := congrArg (Option.getD · (b.text "trigger")) word
        simp only [Option.getD_map] at text
        simp only [Expr.blur, hs, text]
      · refine bind (parenthesized_like h) fun inner inner' hi => ?_
        refine bind (spanFrom hs) fun span span' same => pure ?_
        simp only [Expr.blur, same, hi]
      · exact wordOrCall_like h (by simp only [Ident.blur, hs]) (by simp only [Expr.blur, hs])
      · exact fail _

/-! ## Chains and operators -/

theorem postfixStep_like (h : D.Like b) {operand operand' : Expr}
    (ho : operand.blur b = operand'.blur b) :
    Like b (Turn.map (Expr.blur b) (Expr.blur b)) (postfixStep D operand)
      (postfixStep D operand') := by
  have hs := Expr.span_like ho
  refine bindSame (accept rfl) fun dot => ite ?_ ?_
  · refine bind memberName fun member member' hm => bindSame (isAt rfl) fun call => ite ?_ ?_
    · refine bind (arguments_like h) fun args args' ha => ?_
      refine bind (spanFrom hs) fun span span' same => pure ?_
      simp only [Turn.map, Expr.blur, Expr.blurAll_eq_map, same, ho, hm, ha]
    · refine pure ?_
      simp only [Turn.map, Expr.blur, ho, hm, b.span_merge hs (Ident.span_like hm)]
  · refine bindSame (accept rfl) fun bracket => ite ?_ ?_
    · refine bind h.assignment fun position position' hp => bind (expect rfl) fun _ _ _ => ?_
      refine bind (spanFrom hs) fun span span' same => pure ?_
      simp only [Turn.map, Expr.blur, same, ho, hp]
    · refine kindBind fun k k' hk => ?_
      rw [hk.operator?]
      split
      · refine bindSame advance fun _ => bind (spanFrom hs) fun span span' same => pure ?_
        simp only [Turn.map, Expr.blur, same, ho]
      · exact pure (congrArg Turn.done ho)

theorem postfixChain_like (h : D.Like b) :
    Like b (Expr.blur b) (postfixChain D) (postfixChain D) := by
  refine bind (primary_like h) fun first first' hf => ?_
  exact iterate (Expr.blur b) (fun _ _ same => postfixStep_like h same) hf

theorem unary_like (h : D.Like b) : Like b (Expr.blur b) (unary D) (unary D) := by
  refine bind here fun start start' hs => kindBind fun k k' hk => ?_
  have operand_like (make : Span → Expr → Expr)
      (hmake : ∀ s e, (make s e).blur b = make (b.span s) (e.blur b)) :
      Like b (Expr.blur b)
        (do let operand ← D.unary; return make (start.merge operand.span) operand)
        (do let operand ← D.unary; return make (start'.merge operand.span) operand) := by
    refine bind h.unary fun operand operand' ho => pure ?_
    rw [hmake, hmake, b.span_merge hs (Expr.span_like ho), ho]
  dsimp only
  rw [hk.operator?]
  split
  · exact bindSame advance fun _ => operand_like (.unary · _ ·) fun _ _ => rfl
  · exact bindSame advance fun _ => operand_like (.stepBefore · _ ·) fun _ _ => rfl
  · refine getBind fun c d like => ?_
    rw [castAhead_like like]
    refine ite ?_ (postfixChain_like h)
    refine bind (expect rfl) fun _ _ _ => bind (typeRef_like h.typeRef) fun type type' ht => ?_
    refine bind (expect rfl) fun _ _ _ => bind h.unary fun operand operand' ho => pure ?_
    simp only [Expr.blur, ht, ho, b.span_merge hs (Expr.span_like ho)]

theorem binaryStep_like (h : D.Like b) (level : BinaryLevel) {operand : Parser Expr}
    (hoperand : Like b (Expr.blur b) operand operand) {left left' : Expr}
    (hl : left.blur b = left'.blur b) :
    Like b (Turn.map (Expr.blur b) (Expr.blur b)) (binaryStep D level operand left)
      (binaryStep D level operand left') := by
  have hs := Expr.span_like hl
  refine kindBind fun k k' hk => ?_
  rw [hk.decide_eq rfl]
  refine ite ?_ (getBind fun c d like => ?_)
  · refine bindSame advance fun _ => bind (typeRef_like h.typeRef) fun type type' ht => pure ?_
    simp only [Turn.map, Expr.blur, hl, ht, b.span_merge hs (TypeRef.span_like ht)]
  · rw [binaryAhead?_like like]
    split
    · refine bindSame (skip _) fun _ => bind hoperand fun right right' hr => pure ?_
      simp only [Turn.map, Expr.blur, hl, hr, b.span_merge hs (Expr.span_like hr)]
    · exact pure (congrArg Turn.done hl)

theorem binaryChain_like (h : D.Like b) : ∀ levels,
    Like b (Expr.blur b) (binaryChain D levels) (binaryChain D levels)
  | [] => unary_like h
  | level :: tighter => by
    have operand := binaryChain_like h tighter
    refine bind operand fun first first' hf => ?_
    exact iterate (Expr.blur b) (fun _ _ same => binaryStep_like h level operand same) hf

theorem ternary_like (h : D.Like b) : Like b (Expr.blur b) (ternary D) (ternary D) := by
  refine bind (binaryChain_like h _) fun condition condition' hc => ?_
  refine bindSame (accept rfl) fun question => ite ?_ (pure hc)
  refine bind h.assignment fun yes yes' hy => bind (expect rfl) fun _ _ _ => ?_
  refine bind h.ternary fun no no' hn => pure ?_
  simp only [Expr.blur, hc, hy, hn, b.span_merge (Expr.span_like hc) (Expr.span_like hn)]

theorem assignment_like (h : D.Like b) : Like b (Expr.blur b) (assignment D) (assignment D) := by
  refine bind (ternary_like h) fun target target' ht => getBind fun c d like => ?_
  rw [assignAhead?_like like]
  split
  · refine bindSame (skip _) fun _ => bind h.assignment fun value value' hv => pure ?_
    simp only [Expr.blur, ht, hv, b.span_merge (Expr.span_like ht) (Expr.span_like hv)]
  · exact pure ht

end Apex.Grammar
