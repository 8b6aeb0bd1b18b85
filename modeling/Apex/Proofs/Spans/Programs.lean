import Apex.Proofs.Spans.Declarations

/-!
# Spans of programs

The tokens of a text follow each other, so the nodes of a program sit between them at whatever
depth the grammar is built. Every node of an accepted program contains its children, which come in
the order of the source and never overlap.
-/

namespace Apex

/-! ## The tokens of a text -/

/-- The tokens found follow each other up to the offset, and none of them is empty. -/
structure Lexing.Laid (l : Lexing) : Prop where
  proper : ∀ t ∈ l.tokens, t.span.start < t.span.stop
  below : ∀ t ∈ l.tokens, t.span.stop ≤ l.offset
  ordered : l.tokens.Pairwise fun later earlier => earlier.span.stop ≤ later.span.start

namespace Lexing.Laid

variable {l : Lexing}

/-- A token from the offset on. -/
theorem push (h : l.Laid) {t : Token} {stop : Nat} (hspan : t.span = ⟨l.offset, stop⟩)
    (further : l.offset < stop) : Laid ⟨t :: l.tokens, l.errors, stop⟩ where
  proper := by
    simp only [List.forall_mem_cons, hspan]
    exact ⟨further, h.proper⟩
  below := by
    simp only [List.forall_mem_cons, hspan]
    exact ⟨Nat.le_refl _, fun t ht => Nat.le_of_lt (Nat.lt_of_le_of_lt (h.below t ht) further)⟩
  ordered := by
    refine .cons (fun t ht => ?_) h.ordered
    rw [hspan]
    exact h.below t ht

theorem add (h : l.Laid) {content : LexemeContent} {stop : Nat} (further : l.offset < stop) :
    (l.add content stop).Laid := by
  have onward : ∀ {errors}, Laid ⟨l.tokens, errors, stop⟩ := fun {_} =>
    ⟨h.proper, fun t ht => Nat.le_of_lt (Nat.lt_of_le_of_lt (h.below t ht) further), h.ordered⟩
  cases content with
  | blank => exact onward
  | token kind => exact h.push rfl further
  | keyword k written => exact h.push rfl further
  | faulty errors => exact onward

theorem lexFrom (h : l.Laid) (skip : Nat) (cs : List Char) : (lexFrom l skip cs).Laid := by
  induction cs generalizing l skip with
  | nil => cases skip <;> exact h
  | cons c cs ih =>
    cases skip with
    | succ skip => exact ih h skip
    | zero =>
      refine ih (h.add ?_) _
      have := c.utf8Size_pos
      simp only [byteSize_cons]
      omega

end Lexing.Laid

/-- The tokens of a text end with the end of the file. -/
theorem tokens_of_lex {source : String} {tokens : List Token} (h : lex source = .ok tokens) :
    (Cursor.ofTokens tokens).tokens = tokens.toArray := by
  have ended : ∀ {ts : List Token} {t : Token}, t.isEnd = true →
      Cursor.withEnd (t :: ts).reverse = (t :: ts).reverse := by
    intro ts t ends
    simp [Cursor.withEnd, ends]
  unfold lex at h
  dsimp only at h
  split at h
  · cases h
    exact congrArg List.toArray (ended rfl)
  · cases h

/-- The row of tokens of a text is sorted. -/
theorem sorted_of_lex {source : String} {tokens : List Token} (h : lex source = .ok tokens) :
    (Cursor.ofTokens tokens).Sorted := by
  have laid : (lexFrom ⟨[], [], 0⟩ 0 source.toList).Laid :=
    Lexing.Laid.lexFrom ⟨by simp, by simp, .nil⟩ 0 source.toList
  rw [Cursor.Sorted, tokens_of_lex h]
  unfold lex at h
  dsimp only at h
  generalize lexFrom ⟨[], [], 0⟩ 0 source.toList = l at laid h
  split at h
  · cases h
    have before := laid.below
    have paired : (Token.plain .endOfFile (Span.point l.offset) :: l.tokens).reverse.Pairwise
        fun a b => a.span.stop ≤ b.span.start :=
      List.pairwise_reverse.mpr (.cons before laid.ordered)
    constructor
    · intro i hi
      simp only [List.size_toArray] at hi
      simpa using List.pairwise_iff_getElem.mp paired i (i + 1) (by omega) hi (by omega)
    · intro i hi
      simp only [List.size_toArray, List.length_reverse, List.length_cons] at hi
      have inside : i < l.tokens.reverse.length := by simpa using hi
      have place : (Token.plain .endOfFile (Span.point l.offset) :: l.tokens).reverse[i]? =
          some l.tokens.reverse[i] := by
        rw [List.reverse_cons, List.getElem?_append_left inside, List.getElem?_eq_getElem inside]
      have found := laid.proper _ (List.mem_reverse.mp (List.getElem_mem inside))
      obtain ⟨_, place⟩ := List.getElem?_eq_some_iff.mp place
      simpa only [List.getElem_toArray, place] using found
  · cases h

/-! ## Nodes of programs -/

namespace Grammar

open Apex.Parser Node

variable {D : Deeper} {c c' : Cursor}

theorem sits_bottom : Deeper.bottom.Sits where
  typeRef _ _ _ _ := nofun
  annotationMark _ _ _ _ := nofun
  annotationValue _ _ _ _ := nofun
  assignment _ _ _ _ := nofun
  ternary _ _ _ _ := nofun
  unary _ _ _ _ := nofun
  statement _ _ _ _ := nofun
  typeDeclaration _ _ := nofun
  ahead := matchesAhead_stays

theorem sits_above (hD : D.Sits) : (above D).Sits where
  typeRef := typeRef_sits hD.typeRef
  annotationMark := annotation_sits hD
  annotationValue := annotationValue_sits hD
  assignment := assignment_sits hD
  ternary := ternary_sits hD
  unary := unary_sits hD
  statement := statement_sits hD
  typeDeclaration := typeDeclaration_sits hD
  ahead := matchesAhead_stays

theorem sits_levels (depth : Nat) : (levels depth).Sits := by
  induction depth with
  | zero => exact sits_bottom
  | succ depth ih => exact sits_above ih

theorem semicolons_silent {n : Nat} (h : semicolons c = .ok (n, c')) : c.Silent c' := by
  have items := (semicolons_ok.mp h).1
  clear h
  generalize List.replicate n () = units at items
  induction items with
  | nil => exact .refl _
  | cons first _ ih =>
    obtain ⟨semicolon, rfl⟩ := first
    exact (Cursor.silent_advance semicolon rfl).trans ih

theorem spanThrough_current (h : c.Before c') (s : c.Sorted) :
    spanThrough c' c.current.span = c.through c' := by
  have hp := h.position
  have last : c'.position - 1 < c.tokens.size := by
    have := h.inBounds
    omega
  have starts : c.current.span.start ≤ c.tokens[c'.position - 1].span.stop := by
    have := h.start_lt_stop s
    rw [h.stop_eq last] at this
    exact Nat.le_of_lt this
  have spanned := Cursor.spanFrom_current h s
  unfold Cursor.spanFrom at spanned
  unfold spanThrough
  rw [h.previous?_eq last] at spanned ⊢
  simpa only [if_pos starts] using spanned

/-- The tree of a file sits on its tokens, unless there is nothing in the file but its end. -/
theorem compilationUnit_place (hD : D.Sits) {u : CompilationUnit} (s : c.Sorted)
    (h : compilationUnit D c = .ok (u, c')) :
    c'.atEnd = true ∧ (u.node.Sits c c' ∨
      c' = c ∧ u.declaration = .nothing u.span ∧ u.span = spanThrough c c.current.span) := by
  obtain ⟨⟨found, count⟩, c₁, run, ends, done⟩ := compilationUnit_ok.mp h
  cases done
  refine ⟨ends, ?_⟩
  rcases declarationAndSemicolons_ok.mp run with ⟨_, n, _, semis, done⟩ |
    ⟨_, d, c₁, n, _, hd, semis, done⟩
  · cases done
    have upto := (semicolons_silent semis).upto
    by_cases empty : c.position = c'.position
    · have same : c' = c := Cursor.ext_position upto.tokens empty.symm
      subst same
      exact .inr ⟨rfl, rfl, rfl⟩
    · have before : c.Before c' := ⟨upto.tokens, Nat.lt_of_le_of_ne upto.position empty⟩
      have span_eq := spanThrough_current before s
      exact .inl (sits_of_row rfl before span_eq (sits_leaf rfl before span_eq).row)
  · cases done
    have sits := declaration_sits hD s hd
    have behind := semicolons_silent semis
    have before := sits.before.trans_upto behind.upto
    exact .inl (sits_of_row rfl before (spanThrough_current before s)
      (sits.row.mono (.refl _) behind))

theorem compilationUnit_sits (hD : D.Sits) {u : CompilationUnit} (s : c.Sorted)
    (h : compilationUnit D c = .ok (u, c')) :
    u.node.Sits c c' ∨ u.declaration = .nothing u.span :=
  (compilationUnit_place hD s h).2.imp_right (·.2.1)

end Grammar

/-- The node contains its children, and they follow each other. -/
def Node.IsLaidOut (n : Node) : Prop :=
  (∀ child ∈ n.children, n.span.contains child.span = true) ∧
    ∀ i a b, n.children[i]? = some a → n.children[i + 1]? = some b → a.span.stop ≤ b.span.start

theorem Node.Sits.isLaidOut {n : Node} {c c' : Cursor} (h : n.Sits c c') (s : c.Sorted) :
    n.IsLaidOut :=
  ⟨fun _ hc => h.contains s hc, fun _ _ _ ha hb => h.children_spread.ordered s ha hb⟩

/-- A file that holds nothing has a root and one leaf, on the same span. -/
theorem isLaidOut_of_nothing {u : CompilationUnit} (nothing : u.declaration = .nothing u.span)
    {path : List Nat} {n : Node} (reached : u.node.descend? path = some n) : n.IsLaidOut := by
  have root : u.node = .mk (.unit u) u.span [.leaf .nothing u.span] := by
    rw [CompilationUnit.node, nothing, Declaration.node]
  have contains : u.span.contains u.span = true := by simp [Span.contains]
  rw [root] at reached
  match path with
  | [] =>
    cases reached
    constructor
    · intro child hc
      cases List.mem_singleton.mp hc
      exact contains
    · intro i a b _ hb
      cases i <;> cases hb
  | [0] =>
    cases reached
    exact ⟨nofun, nofun⟩
  | 0 :: i :: path => cases reached
  | (i + 1) :: path => cases reached

/-- Whatever is reached from the root of an accepted text contains its children, and they follow
each other in the order of the text without overlapping. -/
theorem isLaidOut_of_parseSource {source : String} {unit : CompilationUnit} {path : List Nat}
    {n : Node} (accepted : parseSource source = .ok unit)
    (reached : unit.node.descend? path = some n) : n.IsLaidOut := by
  unfold parseSource at accepted
  split at accepted
  · next tokens lexed =>
    have s := sorted_of_lex lexed
    unfold parse parseWithin parseWith at accepted
    dsimp only at accepted
    split at accepted
    · cases accepted
    · cases run : Grammar.compilationUnit (Grammar.levels maxNesting) (Cursor.ofTokens tokens) with
      | error e =>
        rw [run] at accepted
        cases accepted
      | ok r =>
        rw [run] at accepted
        cases accepted
        rcases Grammar.compilationUnit_sits (Grammar.sits_levels maxNesting) s run with
          sits | nothing
        · obtain ⟨d, d', sits, sorted⟩ := sits.descend s reached
          exact sits.isLaidOut sorted
        · exact isLaidOut_of_nothing nothing reached
  · cases accepted
  · cases accepted

/-- A class whose annotation stands between two modifiers. -/
theorem isLaidOut_mixed_header :
    ∃ unit n, parseSource "public @A static class C {}" = .ok unit ∧
      unit.node.descend? [0] = some n ∧ n.IsLaidOut := by
  have found : ((parseSource "public @A static class C {}").toOption.bind
      (·.node.descend? [0])).isSome = true := by decide +kernel
  cases accepted : parseSource "public @A static class C {}" with
  | error e =>
    rw [accepted] at found
    cases found
  | ok unit =>
    cases reached : unit.node.descend? [0] with
    | none =>
      rw [accepted] at found
      simp [Except.toOption, reached] at found
    | some n => exact ⟨unit, n, rfl, reached, isLaidOut_of_parseSource accepted reached⟩

end Apex
