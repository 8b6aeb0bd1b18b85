import Apex.Grammar.Header
import Apex.Proofs.Blur.Parsers

/-!
# Types and headers through a blur

Types and headers are read without seeing through a blur, if the constructs one nesting level down
are. Casts are told from parenthesised expressions by the kinds of tokens alone.
-/

namespace Apex

open Apex.Parser Apex.Parser.Like

variable {b : Blur}

/-- No construct one level down can see through the blur. -/
structure Deeper.Like (b : Blur) (D : Deeper) : Prop where
  typeRef : Parser.Like b (TypeRef.blur b) D.typeRef D.typeRef
  annotationMark : Parser.Like b (AnnotationMark.blur b) D.annotationMark D.annotationMark
  annotationValue : Parser.Like b (AnnotationValue.blur b) D.annotationValue D.annotationValue
  assignment : Parser.Like b (Expr.blur b) D.assignment D.assignment
  ternary : Parser.Like b (Expr.blur b) D.ternary D.ternary
  unary : Parser.Like b (Expr.blur b) D.unary D.unary
  statement : Parser.Like b (Statement.blur b) D.statement D.statement
  typeDeclaration : ∀ read read', read.blur b = read'.blur b →
    Parser.Like b (TypeDeclaration.blur b) (D.typeDeclaration read) (D.typeDeclaration read')
  ahead : ∀ look : Parser TypeRef → Parser Unit,
    (∀ argument, Parser.Like b (TypeRef.blur b) argument argument →
      Parser.Like b id (look argument) (look argument)) →
    Parser.Like b id (D.ahead look) (D.ahead look)

namespace Grammar

variable {D : Deeper}

/-! ## Types -/

theorem typeSegments_like : Like b (List.map (Ident.blur b)) typeSegments typeSegments := by
  refine bind identifier fun first first' hf => ?_
  refine iterate (List.map (Ident.blur b)) (fun segments segments' same => ?_)
    (congrArg (fun a => [a]) hf)
  refine bindSame (isAt rfl) fun dot => kindAtBind fun k k' hk => ?_
  rw [hk.isName]
  refine ite ?_ (done_reverse same)
  exact bindSame advance fun _ => again_cons identifier same

theorem typeArguments_like {argument : Parser TypeRef}
    (h : Like b (TypeRef.blur b) argument argument) :
    Like b (List.map (TypeRef.blur b)) (typeArguments argument) (typeArguments argument) := by
  refine bindSame (accept rfl) fun opened => ite ?_ (pure rfl)
  refine bind (commaSeparated h) fun arguments arguments' ha => ?_
  exact bindSame (accept rfl) fun closed => ite (pure ha) (fail _)

theorem arrayBrackets_like : Like b id arrayBrackets arrayBrackets := by
  refine iterate id (fun count count' same => ?_) rfl
  rw [show count' = count from same.symm]
  refine bindSame (isAt rfl) fun opened => kindAtBind fun k k' hk => ?_
  rw [hk.decide_eq rfl]
  refine ite ?_ (pure rfl)
  exact bindSame advance fun _ => bindSame advance fun _ => pure rfl

theorem elementType_like {argument : Parser TypeRef}
    (h : Like b (TypeRef.blur b) argument argument) :
    Like b (TypeRef.blur b) (elementType argument) (elementType argument) := by
  refine bind here fun start start' hs => bind typeSegments_like fun segments segments' hsg => ?_
  refine bind (typeArguments_like h) fun arguments arguments' ha => ?_
  refine bind (spanFrom hs) fun span span' same => pure ?_
  simp only [TypeRef.blur, TypeRef.blurAll_eq_map, same, hsg, ha]

theorem typeRef_like {argument : Parser TypeRef} (h : Like b (TypeRef.blur b) argument argument) :
    Like b (TypeRef.blur b) (typeRef argument) (typeRef argument) := by
  refine bind here fun start start' hs => bind (elementType_like h) fun type type' ht => ?_
  refine bindSame arrayBrackets_like fun dimensions => ?_
  refine bind (spanFrom hs) fun span span' same => pure ?_
  obtain ⟨_, segments, arguments, _⟩ := type
  obtain ⟨_, segments', arguments', _⟩ := type'
  simp only [TypeRef.blur, TypeRef.mk.injEq] at ht ⊢
  exact ⟨same, ht.2.1, ht.2.2.1, trivial⟩

/-! ## Casts -/

theorem dropSegments_map (kinds : List TokenKind) :
    dropSegments (kinds.map (TokenKind.blur b)) = (dropSegments kinds).map (TokenKind.blur b) := by
  fun_induction dropSegments kinds with
  | case1 text kinds ih => exact ih
  | case2 kinds other =>
    refine dropSegments.eq_2 _ fun text rest same => ?_
    obtain ⟨k, ks, rfl, first, same⟩ := List.map_eq_cons_iff.mp same
    obtain ⟨k', ks', rfl, second, -⟩ := List.map_eq_cons_iff.mp same
    cases k <;> cases k' <;>
      simp only [TokenKind.blur, reduceCtorEq, TokenKind.punctuation.injEq] at first second
    exact other _ _ (by rw [first])

theorem dropBrackets_map (kinds : List TokenKind) :
    dropBrackets (kinds.map (TokenKind.blur b)) = (dropBrackets kinds).map (TokenKind.blur b) := by
  fun_induction dropBrackets kinds with
  | case1 kinds ih => exact ih
  | case2 kinds other =>
    refine dropBrackets.eq_2 _ fun rest same => ?_
    obtain ⟨k, ks, rfl, first, same⟩ := List.map_eq_cons_iff.mp same
    obtain ⟨k', ks', rfl, second, -⟩ := List.map_eq_cons_iff.mp same
    cases k <;> cases k' <;>
      simp only [TokenKind.blur, reduceCtorEq, TokenKind.punctuation.injEq] at first second
    exact other _ (by rw [first, second])

/-- What follows a type is found without looking at names. -/
theorem dropType_map (limit : Nat) : ∀ kinds : List TokenKind,
    dropType limit (kinds.map (TokenKind.blur b)) =
        (dropType limit kinds).map (List.map (TokenKind.blur b)) ∧
      dropArguments limit (kinds.map (TokenKind.blur b)) =
        (dropArguments limit kinds).map (List.map (TokenKind.blur b)) := by
  induction limit with
  | zero => exact fun kinds => ⟨rfl, rfl⟩
  | succ limit ih =>
    intro kinds
    constructor
    · rcases kinds with _ | ⟨k, ks⟩
      · rfl
      · cases k with
        | name text =>
          simp only [List.map_cons, TokenKind.blur, dropType, dropSegments_map]
          generalize dropSegments ks = rest
          rcases rest with _ | ⟨r, rest⟩
          · rfl
          · cases r with
            | operator o =>
              cases o with
              | less =>
                simp only [List.map_cons, TokenKind.blur, (ih rest).2, Option.map_map]
                congr 1
                funext ks
                exact dropBrackets_map ks
              | _ =>
                simp only [Option.map_some, ← dropBrackets_map, List.map_cons, TokenKind.blur]
            | _ => simp only [Option.map_some, ← dropBrackets_map, List.map_cons, TokenKind.blur]
        | _ => rfl
    · rw [dropArguments, dropArguments, (ih kinds).1]
      rcases dropType limit kinds with _ | rest
      · rfl
      · rcases rest with _ | ⟨r, rest⟩
        · rfl
        · cases r with
          | punctuation p =>
            cases p with
            | comma => exact (ih rest).2
            | _ => rfl
          | operator o => cases o <;> rfl
          | _ => rfl

theorem looksLikeCast_map (window : List TokenKind) :
    looksLikeCast (window.map (TokenKind.blur b)) = looksLikeCast window := by
  unfold looksLikeCast
  rw [List.length_map, (dropType_map _ window).1]
  rcases dropType (2 * window.length) window with _ | rest
  · rfl
  · rcases rest with _ | ⟨close, _ | ⟨operand, rest⟩⟩
    · rfl
    · cases close with
      | punctuation p => cases p <;> rfl
      | _ => rfl
    · cases close with
      | punctuation p =>
        cases p with
        | closeParen => cases operand <;> rfl
        | _ => rfl
      | _ => rfl

/-- A cast is told from a parenthesised expression without looking at names. -/
theorem castAhead_like {c d : Cursor} (like : c.Like b d) : castAhead c = castAhead d := by
  have window :
      ((List.range castWindow).map fun i => (c.peek (i + 1)).kind).map (TokenKind.blur b) =
        ((List.range castWindow).map fun i => (d.peek (i + 1)).kind).map (TokenKind.blur b) := by
    rw [List.map_map, List.map_map]
    exact List.map_congr_left fun i _ => (like.peek (i + 1)).kind.blur
  unfold castAhead
  rw [like.current.kind.beq_eq rfl, ← looksLikeCast_map (b := b), window, looksLikeCast_map]

/-! ## Modifiers -/

theorem any_value_like {earlier earlier' : List (Spanned Modifier)}
    (same : earlier.map (Spanned.blur b) = earlier'.map (Spanned.blur b)) (m : Modifier) :
    earlier.any (·.value == m) = earlier'.any (·.value == m) := by
  have values (ms : List (Spanned Modifier)) :
      ms.any (·.value == m) = (ms.map (Spanned.blur b)).any (·.value == m) := by
    rw [List.any_map]
    rfl
  rw [values earlier, same, ← values]

theorem sharingModifier_like (m : Modifier) :
    Like b (Option.map (Spanned.blur b)) (sharingModifier m) (sharingModifier m) := by
  refine bind here fun start start' hs => bindSame (skip 2) fun _ => ?_
  refine bind (spanFrom hs) fun span span' same => pure ?_
  simp only [Option.map, Spanned.blur, same]

theorem modifier?_like : Like b (Option.map (Spanned.blur b)) modifier? modifier? := by
  refine kindAtBind fun next next' hn => kindBind fun k k' hk => ?_
  rw [hn.spells]
  have without := hk.spells .kwWithout
  have inherited := hk.spells .kwInherited
  cases hk with
  | soql | sosl => exact ite (sharingModifier_like _) (ite (sharingModifier_like _) (pure rfl))
  | name same =>
    dsimp only
    rw [without, inherited]
    exact ite (sharingModifier_like _) (ite (sharingModifier_like _) (pure rfl))
  | refl =>
    split
    · exact ite (sharingModifier_like _) (bindSame advance fun _ => fail _)
    · split
      · refine nextBind fun t t' ht => pure ?_
        simp only [Option.map, Spanned.blur, ht.span]
      · exact pure rfl
    · exact ite (sharingModifier_like _) (ite (sharingModifier_like _) (pure rfl))

theorem checkFresh_like {earlier earlier' : List (Spanned Modifier)} {m m' : Spanned Modifier}
    (same : earlier.map (Spanned.blur b) = earlier'.map (Spanned.blur b))
    (sameModifier : m.blur b = m'.blur b) :
    Like b id (checkFresh earlier m) (checkFresh earlier' m') := by
  unfold checkFresh
  rw [any_value_like same, Spanned.value_like sameModifier]
  exact ite (throw (by simp only [ParseError.blur, Spanned.span_like sameModifier])) (pure rfl)

theorem modifiers_like : Like b (List.map (Spanned.blur b)) modifiers modifiers := by
  refine iterate (List.map (Spanned.blur b)) (fun read read' same => ?_) rfl
  refine bind modifier?_like fun found found' hf => ?_
  cases found <;> cases found' <;> simp only [Option.map, reduceCtorEq, Option.some.injEq] at hf
  · exact done_reverse same
  · refine bindSame (checkFresh_like same hf) fun _ => pure ?_
    simp only [Turn.map, List.map_cons, hf, same]

/-! ## Annotations -/

theorem checkValueEnds_like {value value' : Span} (same : b.span value = b.span value')
    (followers : List Punctuation) :
    Like b id (checkValueEnds value followers) (checkValueEnds value' followers) := by
  refine currentBind fun t t' ht => ?_
  have follows : (followers.any fun p => t.kind == .punctuation p) =
      followers.any fun p => t'.kind == .punctuation p :=
    congrArg followers.any (funext fun p => ht.kind.beq_eq rfl)
  dsimp only
  rw [follows]
  refine ite (throw ?_) (pure rfl)
  simp only [ParseError.blur, AnnotationFault.blur, b.span_merge same ht.span, ht.kind.blur]

theorem keyAhead_like : Like b id keyAhead keyAhead := by
  refine kindBind fun k k' hk => kindAtBind fun n n' hn => pure ?_
  rw [hk.isName, hn.beq_eq rfl]

theorem annotationLiteral?_like {k k' : TokenKind} (like : k.Like b k') :
    annotationLiteral? k = annotationLiteral? k' := by
  cases like <;> rfl

theorem negatedLiteral?_like {k k' : TokenKind} (like : k.Like b k') :
    negatedLiteral? k = negatedLiteral? k' := by
  cases like <;> rfl

theorem literalValue_like : Like b (AnnotationValue.blur b) literalValue literalValue := by
  refine bind here fun start start' hs => bindSame (isAt rfl) fun negative => ?_
  refine kindAtBind fun k k' hk => ?_
  rw [annotationLiteral?_like hk, negatedLiteral?_like hk]
  split
  · refine bindSame (skip _) fun _ => bind (spanFrom hs) fun span span' same => pure ?_
    simp only [AnnotationValue.blur, same]
  · refine getBind fun c d like => throw ?_
    simp only [ParseError.blur, AnnotationFault.blur, b.span_merge (like.peek _).span hs,
      (like.peek _).kind.blur]

theorem arrayValue_like (h : D.Like b) :
    Like b (AnnotationValue.blur b) (arrayValue D) (arrayValue D) := by
  refine bind h.annotationValue fun value value' hv => ?_
  exact bindSame (checkValueEnds_like (AnnotationValue.span_like hv) _) fun _ => pure hv

theorem arrayValues_like (h : D.Like b) :
    Like b (List.map (AnnotationValue.blur b)) (arrayValues D) (arrayValues D) := by
  refine bindSame (isAt rfl) fun empty => ?_
  exact ite (pure rfl) (commaSeparated (arrayValue_like h))

theorem annotationValue_like (h : D.Like b) :
    Like b (AnnotationValue.blur b) (annotationValue D) (annotationValue D) := by
  refine bind here fun start start' hs => bindSame (isAt rfl) fun nested => ite ?_ ?_
  · refine bind h.annotationMark fun a a' ha => pure ?_
    simp only [AnnotationValue.blur, ha]
  · refine bindSame (accept rfl) fun array => ite ?_ literalValue_like
    refine bind (arrayValues_like h) fun values values' hv => bind (expect rfl) fun _ _ _ => ?_
    refine bind (spanFrom hs) fun span span' same => pure ?_
    simp only [AnnotationValue.blur, AnnotationValue.blurAll_eq_map, same, hv]

theorem keyedElement_like (h : D.Like b) :
    Like b (AnnotationElement.blur b) (keyedElement D) (keyedElement D) := by
  refine bind identifier fun key key' hk => bind (expect rfl) fun _ _ _ => ?_
  refine bind (annotationValue_like h) fun value value' hv => bindSame keyAhead_like fun ahead => ?_
  refine check (checkValueEnds_like (AnnotationValue.span_like hv) _) ?_
  refine bindSame (accept rfl) fun comma => pure ?_
  simp only [AnnotationElement.blur, Option.map, hk, hv,
    b.span_merge (Ident.span_like hk) (AnnotationValue.span_like hv)]

theorem annotationElements_like (h : D.Like b) :
    Like b (List.map (AnnotationElement.blur b)) (annotationElements D) (annotationElements D) := by
  refine bindSame keyAhead_like fun keyed => ite (itemsUntil rfl (keyedElement_like h)) ?_
  refine bindSame (isAt rfl) fun empty => ite (pure rfl) ?_
  refine bind (annotationValue_like h) fun value value' hv => ?_
  have span := AnnotationValue.span_like hv
  refine bindSame (checkValueEnds_like span _) fun _ => pure ?_
  simp only [List.map, AnnotationElement.blur, Option.map, hv, span]

theorem annotation_like (h : D.Like b) :
    Like b (AnnotationMark.blur b) (annotationMark D) (annotationMark D) := by
  refine bind (expect rfl) fun start start' hs => bind identifier fun name name' hn => ?_
  refine bindSame (accept rfl) fun parenthesized => ite ?_ ?_
  · refine bind (annotationElements_like h) fun elements elements' he => ?_
    refine bind (expect rfl) fun _ _ _ => bind (spanFrom hs) fun span span' same => pure ?_
    simp only [AnnotationMark.blur, AnnotationElement.blurAll_eq_map, same, hn, he]
  · refine bind (spanFrom hs) fun span span' same => pure ?_
    simp only [AnnotationMark.blur, same, hn]

/-! ## Headers -/

theorem start_or_like {start start' : Option Span} {first first' : Span}
    (same : start.map b.span = start'.map b.span) (sameFirst : b.span first = b.span first') :
    (start.or (some first)).map b.span = (start'.or (some first')).map b.span := by
  cases start <;> cases start' <;> simp only [Option.map, reduceCtorEq] at same
  · exact congrArg some sameFirst
  · exact same

theorem headerStep_like (h : D.Like b) {read read' : ReadHeader}
    (same : read.blur b = read'.blur b) :
    Like b (Turn.map (ReadHeader.blur b) (ReadHeader.blur b)) (headerStep D read)
      (headerStep D read') := by
  obtain ⟨⟨annotations, modifiers⟩, start⟩ := read
  obtain ⟨⟨annotations', modifiers'⟩, start'⟩ := read'
  simp only [ReadHeader.blur, Header.blur, ReadHeader.mk.injEq, Header.mk.injEq] at same
  obtain ⟨⟨ha, hm⟩, hs⟩ := same
  refine bindSame (isAt rfl) fun annotated => ite ?_ ?_
  · refine bind (annotation_like h) fun a a' same => pure ?_
    simp only [Turn.map, ReadHeader.blur, Header.blur, List.map_cons, same, ha, hm,
      start_or_like hs (AnnotationMark.span_like same)]
  · refine bind modifier?_like fun found found' hf => ?_
    cases found <;> cases found' <;> simp only [Option.map, reduceCtorEq, Option.some.injEq] at hf
    · refine pure ?_
      simp only [Turn.map, ReadHeader.blur, Header.blur, List.map_reverse, ha, hm, hs]
    · refine bindSame (checkFresh_like hm hf) fun _ => pure ?_
      simp only [Turn.map, ReadHeader.blur, Header.blur, List.map_cons, hf, ha, hm,
        start_or_like hs (Spanned.span_like hf)]

theorem header_like (h : D.Like b) : Like b (ReadHeader.blur b) (header D) (header D) :=
  iterate (ReadHeader.blur b) (fun _ _ same => headerStep_like h same) rfl

theorem declarationStart_like {read read' : ReadHeader} (same : read.blur b = read'.blur b) :
    Like b b.span (declarationStart read) (declarationStart read') := by
  have start : read.start.map b.span = read'.start.map b.span := congrArg ReadHeader.start same
  refine bind here fun here here' hh => pure ?_
  cases hs : read.start <;> cases hs' : read'.start <;>
    simp only [hs, hs', Option.map, reduceCtorEq, Option.some.injEq] at start
  · exact hh
  · exact start

end Grammar

end Apex
