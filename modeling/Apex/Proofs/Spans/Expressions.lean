import Apex.Proofs.Reading.Expressions
import Apex.Proofs.Spans.Types

/-!
# Where expressions sit

The node of an expression sits on the tokens that the expression is read from. What a loop has
read so far sits where the loop began, and every turn stretches it.
-/

namespace Apex

theorem Expr.nodes_eq_map (es : List Expr) : Expr.nodes es = es.map Expr.node := by
  induction es with
  | nil => rfl
  | cons e es ih => rw [Expr.nodes, ih, List.map_cons]

/-- The node of a map entry. -/
def Expr.entryNode (entry : Expr × Expr) : Node :=
  .mk (.mapEntry entry.1 entry.2) (entry.1.span.merge entry.2.span) [entry.1.node, entry.2.node]

theorem Expr.entryNodes_eq_map (entries : List (Expr × Expr)) :
    Expr.entryNodes entries = entries.map Expr.entryNode := by
  induction entries with
  | nil => rfl
  | cons entry entries ih => rw [Expr.entryNodes, ih, List.map_cons, entryNode]

theorem Expr.node_span (e : Expr) : e.node.span = e.span := by
  cases e <;> rfl

theorem BinaryLevel.isLeaf_kind (l : BinaryLevel) : l.kind.isLeaf = false := by
  cases l <;> rfl

namespace Grammar

open Apex.Parser Node

variable {D : Deeper} {c c₀ c₁ c' : Cursor}

/-! ## Primaries -/

theorem expressions_rows (hD : D.Sits) : (commaSeparated D.assignment).Rows Expr.nodes := by
  intro c es c' s h
  rw [Expr.nodes_eq_map]
  exact commaSeparated_rows hD.assignment.rows s h

theorem expressionsBefore_rows (hD : D.Sits) (close : Punctuation) :
    (expressionsBefore D close).Rows Expr.nodes := by
  intro c es c' s h
  rcases expressionsBefore_ok.mp h with ⟨_, done⟩ | ⟨_, run⟩
  · cases done
    exact .nil (.refl _)
  · exact expressions_rows hD s run

theorem optionalExpression_rows (hD : D.Sits) :
    (optionalExpression D).Rows fun e => (e.map Expr.node).toList := by
  intro c e c' s h
  rcases optionalExpression_ok.mp h with ⟨_, done⟩ | ⟨_, value, c₁, run, done⟩
  · cases done
    exact .nil (.refl _)
  · cases done
    exact (hD.assignment s run).row

theorem arguments_rows (hD : D.Sits) : (arguments D).Rows Expr.nodes := by
  intro c es c' s h
  obtain ⟨opened, args, c₁, run, closed, done⟩ := arguments_ok.mp h
  cases done
  exact (expressionsBefore_rows hD _ s.advance run).mono (Cursor.silent_advance opened rfl)
    (Cursor.silent_advance closed rfl)

/-- The parentheses stand around what they hold. -/
theorem parenthesized_sits (hD : D.Sits) {inner : Expr} (s : c.Sorted)
    (h : parenthesized D c = .ok (inner, c')) :
    c.Lead c.advance ∧ ∃ c₁, inner.node.Sits c.advance c₁ ∧ c₁.Silent c' := by
  obtain ⟨opened, inner, c₁, run, closed, done⟩ := parenthesized_ok.mp h
  cases done
  exact ⟨lead_of_kind opened rfl nofun, c₁, hD.assignment s.advance run,
    Cursor.silent_advance closed rfl⟩

theorem parenthesized_rows (hD : D.Sits) : (parenthesized D).Rows fun e => [e.node] := by
  intro c inner c' s h
  obtain ⟨first, c₁, sits, behind⟩ := parenthesized_sits hD s h
  exact sits.row.mono first.silent behind

/-- A key and the value behind its arrow make an entry. -/
theorem entry_sits (hD : D.Sits) {key value : Expr} (s : c.Sorted) (hk : key.node.Sits c c₁)
    (run : entryValue D c₁ = .ok (value, c')) :
    (Expr.entryNode (key, value)).Sits c c' := by
  obtain ⟨arrow, run⟩ := entryValue_ok.mp run
  have gap := Cursor.silent_advance arrow rfl
  have s₁ := hk.before.sorted s
  have hv := hD.assignment s₁.advance run
  refine sits_of_row rfl (hk.before.trans_upto (gap.upto.trans hv.before.upto)) ?_
    (hk.cons (hv.row.mono gap (.refl _)))
  rw [← key.node_span, ← value.node_span]
  exact hk.merge_span s gap.upto hv

theorem mapEntry_sits (hD : D.Sits) : (mapEntry D).Sits Expr.entryNode := by
  intro c entry c' s h
  obtain ⟨key, c₁, value, c₂, first, run, done⟩ := mapEntry_ok.mp h
  cases done
  exact entry_sits hD s (hD.assignment s first) run

theorem braceCreator_sits (hD : D.Sits) {type : TypeRef} {e : Expr} (s : c₀.Sorted)
    (first : c₀.Lead c₁) (ht : Row [type.node] c₁ c)
    (h : braceCreator D c₀.current.span type c = .ok (e, c')) : e.node.Sits c₀ c' := by
  have sorted := ht.upto.sorted (first.sorted s)
  rcases braceCreator_ok.mp h with ⟨closed, done⟩ | ⟨_, head, c₂, run, rest⟩
  · have row := ht.mono (.refl _) (Cursor.silent_advance closed rfl)
    split at done
    · cases done
      exact sits_of_first rfl s first row
    · cases done
      exact sits_of_first rfl s first row
  · have hh := hD.assignment sorted run
    rcases rest with
      ⟨_, value, c₃, entries, c₄, arrow, run, closed, done⟩ | ⟨_, elements, c₃, run, closed, done⟩
    · cases done
      have he := entry_sits hD sorted hh arrow
      obtain ⟨more, rfl, items, _⟩ := commaSeparatedFrom_items run
      have row := he.cons (commaItems_row (mapEntry_sits hD).rows (he.before.sorted sorted) items)
      have row := ht.append (row.mono (.refl _) (Cursor.silent_advance closed rfl))
      rw [← List.map_cons (f := Expr.entryNode), ← Expr.entryNodes_eq_map] at row
      exact sits_of_first rfl s first row
    · cases done
      obtain ⟨more, rfl, items, _⟩ := commaSeparatedFrom_items run
      have row := hh.cons (commaItems_row hD.assignment.rows (hh.before.sorted sorted) items)
      have row := ht.append (row.mono (.refl _) (Cursor.silent_advance closed rfl))
      rw [← List.map_cons (f := Expr.node), ← Expr.nodes_eq_map] at row
      exact sits_of_first rfl s first row

theorem bracketCreator_sits (hD : D.Sits) {type : TypeRef} {e : Expr} (s : c₀.Sorted)
    (first : c₀.Lead c₁) (ht : Row [type.node] c₁ c)
    (h : bracketCreator D c₀.current.span type c = .ok (e, c')) : e.node.Sits c₀ c' := by
  have sorted := ht.upto.sorted (first.sorted s)
  rcases bracketCreator_ok.mp h with
    ⟨bracket, brace, elements, c₂, run, closed, done⟩ | ⟨_, size, c₂, run, closed, done⟩
  · cases done
    have row := expressionsBefore_rows hD _ sorted.advance.advance run
    have gap := (Cursor.silent_advance bracket rfl).trans (Cursor.silent_advance brace rfl)
    exact sits_of_first rfl s first (ht.append (row.mono gap (Cursor.silent_advance closed rfl)))
  · cases done
    have hs := hD.assignment sorted run
    exact sits_of_first rfl s first
      (ht.append (hs.row.mono (.refl _) (Cursor.silent_advance closed rfl)))

/-- A creator sits from its `new` on. -/
theorem creator_sits (hD : D.Sits) {e : Expr} (s : c₀.Sorted) (first : c₀.Lead c)
    (h : creator D c₀.current.span c = .ok (e, c')) : e.node.Sits c₀ c' := by
  have sorted := first.sorted s
  obtain ⟨type, c₁, run, rest⟩ := creator_ok.mp h
  have ht := elementType_sits hD.typeRef sorted run
  have s₁ := ht.before.sorted sorted
  rcases rest with ⟨_, args, c₂, run, done⟩ | ⟨opened, run⟩ | ⟨opened, run⟩
  · cases done
    exact sits_of_first rfl s first (ht.cons (arguments_rows hD s₁ run))
  · have row := ht.row.mono (.refl _) (Cursor.silent_advance opened rfl)
    exact bracketCreator_sits hD s first row run
  · have row := ht.row.mono (.refl _) (Cursor.silent_advance opened rfl)
    exact braceCreator_sits hD s first row run

/-- A leaf on the token under the cursor. -/
theorem current_sits {element : Element} (isLeaf : element.kind.isLeaf = true)
    (inside : c.current.isEnd = false) : (Node.leaf element c.current.span).Sits c c.advance :=
  sits_leaf isLeaf (Cursor.before_advance inside) (Cursor.through_advance inside).symm

theorem wordAlone?_sits {found : String × Expr} (h : wordAlone? c.current = some found) :
    c.current.isEnd = false ∧ found.2.node.Sits c c.advance := by
  unfold wordAlone? at h
  split at h
  · next hk =>
    cases h
    have inside := isEnd_of_kind hk nofun
    exact ⟨inside, current_sits rfl inside⟩
  · next hk =>
    cases h
    have inside := isEnd_of_kind hk nofun
    exact ⟨inside, current_sits rfl inside⟩
  · next hk =>
    cases h
    have inside := isEnd_of_kind hk nofun
    exact ⟨inside, current_sits rfl inside⟩
  · cases h

theorem wordOrCall_sits (hD : D.Sits) {text : String} {alone e : Expr} (s : c.Sorted)
    (inside : c.current.isEnd = false) (ha : alone.node.Sits c c.advance)
    (h : wordOrCall D ⟨text, c.current.span⟩ alone c = .ok (e, c')) : e.node.Sits c c' := by
  rcases wordOrCall_ok.mp h with ⟨_, args, c₁, run, done⟩ | ⟨_, done⟩
  · cases done
    have word : (Spanned.identifierNode ⟨text, c.current.span⟩).Sits c c.advance :=
      current_sits rfl inside
    have rest := arguments_rows hD s.advance run
    have before := word.before.trans_upto rest.upto
    exact sits_of_row rfl before (Cursor.spanFrom_current before s) (word.cons rest)
  · cases done
    exact ha

theorem primary_sits (hD : D.Sits) : (primary D).Sits Expr.node := by
  intro c e c' s h
  rcases primary_ok.mp h with ⟨value, literal, done⟩ | ⟨found, word, run⟩ | ⟨hk, run⟩ |
    ⟨hk, done⟩ | ⟨hk, inner, c₁, run, done⟩
  · cases done
    have inside : c.current.isEnd = false := by
      refine isEnd_of_kind rfl fun ends => ?_
      rw [ends] at literal
      cases literal
    exact current_sits (Literal.isLeaf_kind value) inside
  · obtain ⟨inside, sits⟩ := wordAlone?_sits word
    exact wordOrCall_sits hD s inside sits run
  · exact creator_sits hD s (lead_of_kind hk rfl nofun) run
  · cases done
    exact current_sits rfl (isEnd_of_kind hk nofun)
  · cases done
    obtain ⟨first, c₁, sits, behind⟩ := parenthesized_sits hD s run
    exact sits_of_first rfl s first (sits.row.mono (.refl _) behind)

/-! ## Chains and operators -/

/-- The expression that a turn of a chain has come to. -/
def reached : Turn Expr Expr → Expr
  | .again e | .done e => e

/-- What a loop has read stretches from where it began, turn after turn. -/
theorem sits_of_iterates {step : Expr → Parser (Turn Expr Expr)} {first result : Expr}
    (hstep : ∀ {e c turn c₁}, c.Sorted → e.node.Sits c₀ c → step e c = .ok (turn, c₁) →
      (reached turn).node.Sits c₀ c₁)
    (loop : Iterates step first c result c') (s : c₀.Sorted) (h : first.node.Sits c₀ c) :
    result.node.Sits c₀ c' := by
  induction loop with
  | done run => exact hstep (h.before.sorted s) h run
  | again run _ ih => exact ih (hstep (h.before.sorted s) h run)

/-- Past a token that writes an operator of some sort. -/
theorem operator_lead {α : Type} {f : Operator → Option α} {op : α}
    (found : c.current.kind.operator?.bind f = some op) : c.Lead c.advance := by
  cases hk : c.current.kind with
  | operator o => exact lead_of_kind hk rfl nofun
  | _ =>
    rw [hk] at found
    cases found

theorem postfixStep_sits (hD : D.Sits) {operand : Expr} {turn : Turn Expr Expr} (s₀ : c₀.Sorted)
    (s : c.Sorted) (ho : operand.node.Sits c₀ c)
    (h : postfixStep D operand c = .ok (turn, c')) :
    (reached turn).node.Sits c₀ c' := by
  -- Any expression made of the operand and a row behind it.
  have stretched : ∀ {element : Element} {ns : List Node} {d : Cursor},
      element.kind.isLeaf = false → Row ns c d →
      (Node.mk element (d.spanFrom operand.span) (operand.node :: ns)).Sits c₀ d := by
    intro element ns d inner row
    rw [← operand.node_span, ho.spanFrom_eq s₀ row.upto]
    exact sits_of_row inner (ho.before.trans_upto row.upto) rfl (ho.cons row)
  rcases postfixStep_ok.mp h with ⟨dot, part, c₁, name, rest⟩ |
    ⟨opened, position, c₁, run, closed, done⟩ | ⟨op, found, done⟩ | ⟨_, _, _, done⟩
  · have hp := memberName_sits s.advance name
    have gap := Cursor.silent_advance dot rfl
    rcases rest with ⟨_, args, c₂, run, done⟩ | ⟨_, done⟩
    · cases done
      have row := hp.cons (arguments_rows hD (hp.before.sorted s.advance) run)
      exact stretched rfl (row.mono gap (.refl _))
    · cases done
      have span_eq := ho.merge_span s₀ gap.upto hp
      rw [operand.node_span] at span_eq
      exact sits_of_row rfl (ho.before.trans_upto (gap.upto.trans hp.before.upto)) span_eq
        (ho.cons (hp.row.mono gap (.refl _)))
  · cases done
    exact stretched rfl ((hD.assignment s.advance run).row.mono
      (Cursor.silent_advance opened rfl) (Cursor.silent_advance closed rfl))
  · cases done
    exact stretched rfl (.nil (operator_lead found).silent)
  · cases done
    exact ho

theorem postfixChain_sits (hD : D.Sits) : (postfixChain D).Sits Expr.node := by
  intro c e c' s h
  obtain ⟨first, c₁, run, loop⟩ := postfixChain_ok.mp h
  exact sits_of_iterates (fun s' => postfixStep_sits hD s s') (iterates_of_iterate loop) s
    (primary_sits hD s run)

theorem unary_sits (hD : D.Sits) : (unary D).Sits Expr.node := by
  intro c e c' s h
  rcases unary_ok.mp h with ⟨op, found, operand, c₁, run, done⟩ |
    ⟨op, found, operand, c₁, run, done⟩ |
    ⟨cast, type, c₁, ht, closed, operand, c₂, run, done⟩ | ⟨_, _, _, run⟩
  · cases done
    have first := operator_lead found
    have ho := hD.unary s.advance run
    have row := ho.row.mono first.silent (.refl _)
    refine sits_of_row (by cases op <;> rfl) (first.before.trans ho.before) ?_ row
    rw [← operand.node_span]
    exact ho.merge_current s first.before
  · cases done
    have first := operator_lead found
    have ho := hD.unary s.advance run
    refine sits_of_row rfl (first.before.trans ho.before) ?_ (ho.row.mono first.silent (.refl _))
    rw [← operand.node_span]
    exact ho.merge_current s first.before
  · cases done
    have first := lead_of_kind (castAhead_openParen cast) rfl nofun
    have ht := typeRef_sits hD.typeRef s.advance ht
    have gap := Cursor.silent_advance closed rfl
    have s₁ := ht.before.sorted s.advance
    have ho := hD.unary s₁.advance run
    have before := first.before.trans (ht.before.trans_upto gap.upto)
    refine sits_of_row rfl (before.trans ho.before) ?_
      ((ht.cons (ho.row.mono gap (.refl _))).mono first.silent (.refl _))
    rw [← operand.node_span]
    exact ho.merge_current s before
  · exact postfixChain_sits hD s run

/-- Past a number of operators. -/
theorem advances_silent {n : Nat} (h : ∀ i < n, ∃ o, (c.peek i).kind = .operator o) :
    c.Silent (c.advances n) := by
  induction n generalizing c with
  | zero => exact .refl _
  | succ n ih =>
    obtain ⟨o, ho⟩ := h 0 (Nat.succ_pos n)
    rw [c.peek_zero] at ho
    refine (Cursor.silent_advance ho rfl).trans (ih fun i hi => ?_)
    rw [← Cursor.peek_succ (isEnd_of_kind ho nofun)]
    exact h (i + 1) (Nat.succ_lt_succ hi)

/-- An operator composed of several tokens is written with operators. -/
theorem composedAhead?_operators {found : Operator × Nat} (h : composedAhead? c = some found) :
    ∀ i < found.2, ∃ o, (c.peek i).kind = .operator o := by
  unfold composedAhead? at h
  split at h
  · next first =>
    have h₀ : (c.peek 0).kind = .operator .greater := by
      rw [c.peek_zero]
      simpa using (Bool.and_eq_true_iff.mp first).1
    have two : ∀ {o}, (c.peek 1).kind = .operator o →
        ∀ i < 2, ∃ o, (c.peek i).kind = .operator o := by
      intro o h₁ i hi
      match i with
      | 0 => exact ⟨_, h₀⟩
      | 1 => exact ⟨_, h₁⟩
    have three : ∀ {o o'}, (c.peek 1).kind = .operator o → (c.peek 2).kind = .operator o' →
        ∀ i < 3, ∃ o, (c.peek i).kind = .operator o := by
      intro o o' h₁ h₂ i hi
      match i with
      | 0 => exact ⟨_, h₀⟩
      | 1 => exact ⟨_, h₁⟩
      | 2 => exact ⟨_, h₂⟩
    split at h
    · next h₁ =>
      cases h
      exact two h₁
    · next h₁ =>
      split at h
      · split at h
        · next h₂ =>
          cases h
          exact three h₁ h₂
        · next h₂ =>
          cases h
          exact three h₁ h₂
        · cases h
          exact two h₁
      · cases h
        exact two h₁
    · cases h
  · cases h

theorem operatorAhead?_silent {found : Operator × Nat} (h : operatorAhead? c = some found) :
    c.Silent (c.advances found.2) := by
  unfold operatorAhead? at h
  split at h
  · next composed =>
    cases h
    exact advances_silent (composedAhead?_operators composed)
  · split at h
    · next hk =>
      split at h
      · cases h
      · cases h
        exact Cursor.silent_advance hk rfl
    · cases h

theorem binaryAhead?_silent {level : BinaryLevel} {found : BinaryOp × Nat}
    (h : binaryAhead? level c = some found) : c.Silent (c.advances found.2) := by
  unfold binaryAhead? at h
  split at h
  · next ahead =>
    split at h
    · split at h
      · cases h
        exact operatorAhead?_silent ahead
      · cases h
    · cases h
  · cases h

theorem assignAhead?_silent {found : AssignOp × Nat} (h : assignAhead? c = some found) :
    c.Silent (c.advances found.2) := by
  unfold assignAhead? at h
  split at h
  · next ahead =>
    obtain ⟨op, _, rfl⟩ := Option.map_eq_some_iff.mp h
    exact operatorAhead?_silent ahead
  · cases h

/-- Two nodes with an operator between them. -/
theorem joined_sits {element : Element} {span : Span} {left right : Node} {d : Cursor}
    (inner : element.kind.isLeaf = false) (s₀ : c₀.Sorted) (hl : left.Sits c₀ c)
    (gap : c.Silent d) (hr : right.Sits d c') (hspan : span = left.span.merge right.span) :
    (Node.mk element span [left, right]).Sits c₀ c' :=
  sits_of_row inner (hl.before.trans_upto (gap.upto.trans hr.before.upto))
    (hspan.trans (hl.merge_span s₀ gap.upto hr)) (hl.cons (hr.row.mono gap (.refl _)))

theorem binaryStep_sits (hD : D.Sits) {level : BinaryLevel} {operand : Parser Expr}
    (hop : operand.Sits Expr.node) {left : Expr} {turn : Turn Expr Expr} (s₀ : c₀.Sorted)
    (s : c.Sorted) (hl : left.node.Sits c₀ c)
    (h : binaryStep D level operand left c = .ok (turn, c')) :
    (reached turn).node.Sits c₀ c' := by
  rcases binaryStep_ok.mp h with ⟨_, test, type, c₁, run, done⟩ |
    ⟨found, ahead, right, c₁, run, done⟩ | ⟨_, _, done⟩
  · cases done
    have ht := typeRef_sits hD.typeRef s.advance run
    exact joined_sits rfl s₀ hl (Cursor.silent_advance test rfl) ht
      (by rw [left.node_span, type.node_span])
  · cases done
    have gap := binaryAhead?_silent ahead
    have hr := hop (gap.upto.sorted s) run
    exact joined_sits (BinaryLevel.isLeaf_kind _) s₀ hl gap hr
      (by rw [left.node_span, right.node_span])
  · cases done
    exact hl

theorem binaryChain_sits (hD : D.Sits) (levels : List BinaryLevel) :
    (binaryChain D levels).Sits Expr.node := by
  induction levels with
  | nil => exact unary_sits hD
  | cons level tighter ih =>
    intro c e c' s h
    obtain ⟨first, c₁, run, loop⟩ := binaryChain_ok.mp h
    exact sits_of_iterates (fun s' => binaryStep_sits hD ih s s') (iterates_of_iterate loop) s
      (ih s run)

theorem ternary_sits (hD : D.Sits) : (ternary D).Sits Expr.node := by
  intro c e c' s h
  obtain ⟨condition, c₁, run, rest⟩ := ternary_ok.mp h
  have hc := binaryChain_sits hD _ s run
  have s₁ := hc.before.sorted s
  rcases rest with ⟨question, yes, c₂, run, colon, no, c₃, run', done⟩ | ⟨_, done⟩
  · cases done
    have hy := hD.assignment s₁.advance run
    have s₂ := hy.before.sorted s₁.advance
    have hn := hD.ternary s₂.advance run'
    have row := hy.cons (hn.row.mono (Cursor.silent_advance colon rfl) (.refl _))
    have row := row.mono (Cursor.silent_advance question rfl) (.refl _)
    have gap := (Cursor.upto_advance c₁).trans (hy.before.upto.trans (Cursor.upto_advance c₂))
    refine sits_of_row rfl (hc.before.trans_upto row.upto) ?_ (hc.cons row)
    rw [← condition.node_span, ← no.node_span]
    exact hc.merge_span s gap hn
  · cases done
    exact hc

theorem assignment_sits (hD : D.Sits) : (assignment D).Sits Expr.node := by
  intro c e c' s h
  obtain ⟨target, c₁, run, rest⟩ := assignment_ok.mp h
  have ht := ternary_sits hD s run
  rcases rest with ⟨found, ahead, value, c₂, run, done⟩ | ⟨_, done⟩
  · cases done
    have gap := assignAhead?_silent ahead
    have hv := hD.assignment (gap.upto.sorted (ht.before.sorted s)) run
    exact joined_sits rfl s ht gap hv (by rw [target.node_span, value.node_span])
  · cases done
    exact ht

end Grammar

end Apex
