import Apex.Proofs.Nesting.Statements
import Apex.Proofs.Reading.Declarations

/-!
# Where two parsers read the same

If a parser that may nest less deeply and one that may nest more deeply read the same tree from a
place, then they went the same way to it, for a tree shows which way its parser took. So a third
parser that follows the first one, and stops only where the second one turns off, reads that tree
too.
-/

namespace Apex

namespace Parser

variable {α β σ : Type} {c c' : Cursor}

/-- Wherever `p` and `q` read the same, they stop at the same place, and `w` reads it too. -/
def Joins (p q w : Parser α) : Prop :=
  ∀ ⦃c x c₁ c₂⦄, p c = .ok (x, c₁) → q c = .ok (x, c₂) → c₂ = c₁ ∧ w c = .ok (x, c₁)

namespace Joins

theorem refl (p : Parser α) : Joins p p p := by
  intro c x c₁ c₂ hp hq
  rw [hp] at hq
  cases hq
  exact ⟨rfl, hp⟩

/-- A parser that stops no later than another one reads nothing that the other does not read. -/
theorem follows_of_refines {stop : ParseError → Bool} {p q w : Parser α} (same : w = p)
    (h : Refines stop w q) {r : α × Cursor} (hp : p c = .ok r) : q c = .ok r ∧ w c = .ok r := by
  subst same
  rcases h c with ⟨e, he, _⟩ | eq
  · rw [hp] at he
    cases he
  · exact ⟨eq.symm.trans hp, hp⟩

/-- The third parser may be the first one, if that one stops no later than the second. -/
theorem of_refines {stop : ParseError → Bool} {p q w : Parser α} (same : w = p)
    (h : Refines stop w q) : Joins p q w := by
  intro c x c₁ c₂ hp hq
  obtain ⟨follows, joined⟩ := follows_of_refines same h hp
  rw [follows] at hq
  cases hq
  exact ⟨rfl, joined⟩

/-- A parser that goes by the kind of the token under the cursor. -/
theorem kind_bind {f g v : TokenKind → Parser α} (h : ∀ k, Joins (f k) (g k) (v k)) :
    Joins (kind >>= f) (kind >>= g) (kind >>= v) :=
  fun _ _ _ _ hp hq => h _ hp hq

/-! ## Loops -/

/-- A turn leads to a result: at once, or by more steps. -/
inductive Leads (step : σ → Parser (Turn σ β)) : Turn σ β → Cursor → β → Cursor → Prop where
  | done {r : β} {c : Cursor} : Leads step (.done r) c r c
  | again {s : σ} {c : Cursor} {r : β} {c' : Cursor} (h : Iterates step s c r c') :
    Leads step (.again s) c r c'

theorem Leads.of_iterates {step : σ → Parser (Turn σ β)} {s : σ} {r : β}
    (h : Iterates step s c r c') : ∃ t c₁, step s c = .ok (t, c₁) ∧ Leads step t c₁ r c' := by
  cases h with
  | done run => exact ⟨_, _, run, .done⟩
  | again run rest => exact ⟨_, _, run, .again rest⟩

variable {p q w : σ → Parser (Turn σ β)}

/-- Two loops whose results agree took the same turns, provided that a turn shows in what it
leads to. -/
theorem iterateFor (Same : β → Cursor → β → Cursor → Prop) (h : ∀ s, Joins (p s) (q s) (w s))
    (shows : ∀ {s c t c₁ t' c₂ r d r' d'}, p s c = .ok (t, c₁) → q s c = .ok (t', c₂) →
      Leads p t c₁ r d → Leads q t' c₂ r' d' → Same r d r' d' → t' = t)
    {limit : Nat} {s : σ} {r r' : β} {d d' : Cursor} (hp : iterateFor p limit s c = .ok (r, d))
    (hq : Iterates q s c r' d') (same : Same r d r' d') :
    r' = r ∧ d' = d ∧ iterateFor w limit s c = .ok (r, d) := by
  induction limit generalizing s c with
  | zero => cases hp
  | succ limit ih =>
    rw [Parser.iterateFor, bind_ok] at hp
    obtain ⟨t, c₁, run, rest⟩ := hp
    obtain ⟨t', c₂, run', leads'⟩ := Leads.of_iterates hq
    rw [Parser.iterateFor]
    cases t with
    | done r =>
      cases pure_ok.mp rest
      cases shows run run' .done leads' same
      obtain ⟨rfl, joined⟩ := h s run run'
      cases leads'
      exact ⟨rfl, rfl, (bind_of_ok joined).mpr rfl⟩
    | again s' =>
      cases shows run run' (.again (iterates_of_iterateFor rest)) leads' same
      obtain ⟨rfl, joined⟩ := h s run run'
      cases leads' with
      | again more =>
        obtain ⟨hr, hd, looped⟩ := ih rest more
        exact ⟨hr, hd, (bind_of_ok joined).mpr looped⟩

/-- Every turn of a loop that collects a list adds one item to it or ends it. -/
abbrev Collects (step : List α → Parser (Turn (List α) (List α))) : Prop :=
  ∀ ⦃items c t c₁⦄, step items c = .ok (t, c₁) →
    (∃ x, t = .again (x :: items)) ∨ t = .done items.reverse

/-- What a loop has collected is the first part of its list. -/
theorem Collects.leads {step : List α → Parser (Turn (List α) (List α))} (h : Collects step)
    {items : List α} {t : Turn (List α) (List α)} {c₁ d : Cursor} {r : List α}
    (run : step items c = .ok (t, c₁)) (leads : Leads step t c₁ r d) :
    (∃ x more, t = .again (x :: items) ∧ r = items.reverse ++ x :: more) ∨
      (t = .done items.reverse ∧ r = items.reverse) := by
  have prefixed : ∀ {items c r d}, Iterates step items c r d → ∃ more, r = items.reverse ++ more := by
    intro items c r d loop
    induction loop with
    | done run =>
      rcases h run with ⟨x, turn⟩ | turn
      · cases turn
      · cases turn
        exact ⟨[], by simp⟩
    | again run _ ih =>
      rcases h run with ⟨x, turn⟩ | turn
      · cases turn
        obtain ⟨more, rfl⟩ := ih
        exact ⟨x :: more, by simp⟩
      · cases turn
  rcases h run with ⟨x, rfl⟩ | rfl
  · cases leads with
    | again loop =>
      obtain ⟨more, rfl⟩ := prefixed loop
      exact .inl ⟨x, more, rfl, by simp⟩
  · cases leads
    exact .inr ⟨rfl, rfl⟩

/-- Loops that collect lists. -/
theorem collect {p q w : List α → Parser (Turn (List α) (List α))}
    (h : ∀ items, Joins (p items) (q items) (w items)) (hp : Collects p) (hq : Collects q)
    (items : List α) : Joins (iterate p items) (iterate q items) (iterate w items) := by
  intro c xs c₁ c₂ run run'
  have joined := iterateFor (fun r _ r' _ => r' = r) h ?_ run (iterates_of_iterate run') rfl
  · exact ⟨joined.2.1, joined.2.2⟩
  · intro items c t c₁ t' c₂ r d r' d' run run' leads leads' same
    subst same
    rcases hp.leads run leads with ⟨x, more, rfl, eq⟩ | ⟨rfl, eq⟩
    · rcases hq.leads run' leads' with ⟨x', more', rfl, eq'⟩ | ⟨rfl, eq'⟩
      · rw [eq] at eq'
        cases List.append_cancel_left eq'
        rfl
      · rw [eq] at eq'
        simp at eq'
    · rcases hq.leads run' leads' with ⟨x', more', rfl, eq'⟩ | ⟨rfl, eq'⟩
      · rw [eq] at eq'
        simp at eq'
      · rfl

theorem itemsUntil {item item' item'' : Parser α} (h : Joins item item' item'')
    (close : TokenKind) :
    Joins (itemsUntil close item) (itemsUntil close item') (itemsUntil close item'') := by
  have collects : ∀ item : Parser α, Collects (untilStep close item) := by
    intro item items c t c₁ run
    rcases untilStep_ok.mp run with ⟨_, turn⟩ | ⟨_, x, _, _, turn⟩
    · cases turn
      exact .inr rfl
    · cases turn
      exact .inl ⟨x, rfl⟩
  refine collect (fun items => ?_) (collects item) (collects item') []
  intro c t c₁ c₂ run run'
  rcases untilStep_ok.mp run with ⟨closes, turn⟩ | ⟨other, x, _, read, turn⟩
  · rcases untilStep_ok.mp run' with ⟨_, turn'⟩ | ⟨other, _⟩
    · cases turn
      cases turn'
      exact ⟨rfl, untilStep_ok.mpr (.inl ⟨closes, rfl⟩)⟩
    · exact (other closes).elim
  · rcases untilStep_ok.mp run' with ⟨closes, _⟩ | ⟨_, x', _, read', turn'⟩
    · exact (other closes).elim
    · cases turn
      cases turn'
      obtain ⟨rfl, joined⟩ := h read read'
      exact ⟨rfl, untilStep_ok.mpr (.inr ⟨other, x, _, joined, rfl⟩)⟩

theorem itemsWhile {item item' item'' : Parser (Option α)} (h : Joins item item' item'') :
    Joins (itemsWhile item) (itemsWhile item') (itemsWhile item'') := by
  have collects : ∀ item : Parser (Option α), Collects (whileStep item) := by
    intro item items c t c₁ run
    rcases whileStep_ok.mp run with ⟨x, _, _, turn⟩ | ⟨_, _, turn⟩
    · cases turn
      exact .inl ⟨x, rfl⟩
    · cases turn
      exact .inr rfl
  refine collect (fun items => ?_) (collects item) (collects item') []
  intro c t c₁ c₂ run run'
  rcases whileStep_ok.mp run with ⟨x, _, read, turn⟩ | ⟨_, read, turn⟩
  · cases turn
    rcases whileStep_ok.mp run' with ⟨x', _, read', turn'⟩ | ⟨_, _, turn'⟩
    · cases turn'
      obtain ⟨rfl, joined⟩ := h read read'
      exact ⟨rfl, whileStep_ok.mpr (.inl ⟨x, _, joined, rfl⟩)⟩
    · cases turn'
  · cases turn
    rcases whileStep_ok.mp run' with ⟨x', _, _, turn'⟩ | ⟨_, read', turn'⟩
    · simp only [Prod.mk.injEq, reduceCtorEq, false_and] at turn'
    · cases turn'
      obtain ⟨rfl, joined⟩ := h read read'
      exact ⟨rfl, whileStep_ok.mpr (.inr ⟨_, joined, rfl⟩)⟩

end Joins

end Parser

open Apex.Parser

/-- The first level with the statements, member types and looking ahead of the second. -/
def Deeper.taking (D W : Deeper) : Deeper :=
  { D with statement := W.statement, typeDeclaration := W.typeDeclaration, ahead := W.ahead }

/-- Each construct one level down joins its counterparts. The third level differs from the first
one in nothing but statements, member types and looking ahead. -/
structure Deeper.Joins (stop : ParseError → Bool) (D D' W : Deeper) : Prop where
  refines : W.Refines stop D'
  same : W = D.taking W
  statement : Parser.Joins D.statement D'.statement W.statement
  typeDeclaration : ∀ read,
    Parser.Joins (D.typeDeclaration read) (D'.typeDeclaration read) (W.typeDeclaration read)
  ahead : ∀ look, Parser.Joins (D.ahead look) (D'.ahead look) (W.ahead look)

namespace Grammar

open Apex.Parser.Joins

variable {D D' W : Deeper} {stop : ParseError → Bool} {c c' : Cursor}

/-! ## Expressions and headers -/

theorem assignment_joins (h : D.Joins stop D' W) :
    Joins D.assignment D'.assignment W.assignment :=
  of_refines (by rw [h.same]; rfl) h.refines.assignment

theorem parenthesized_joins (h : D.Joins stop D' W) :
    Joins (parenthesized D) (parenthesized D') (parenthesized W) :=
  of_refines (by rw [h.same]; rfl) (parenthesized_refines h.refines)

theorem optionalExpression_joins (h : D.Joins stop D' W) :
    Joins (optionalExpression D) (optionalExpression D') (optionalExpression W) :=
  of_refines (by rw [h.same]; rfl) (optionalExpression_refines h.refines)

theorem expressions_joins (h : D.Joins stop D' W) :
    Joins (expressions D) (expressions D') (expressions W) :=
  of_refines (by rw [h.same]; rfl) (expressions_refines h.refines)

theorem expressionsBefore_joins (h : D.Joins stop D' W) (close : Punctuation) :
    Joins (expressionsBefore D close) (expressionsBefore D' close) (expressionsBefore W close) :=
  of_refines (by rw [h.same]; rfl) (expressionsBefore_refines h.refines close)

theorem typeRef_follows (h : D.Joins stop D' W) {r : TypeRef × Cursor}
    (run : typeRef D.typeRef c = .ok r) :
    typeRef D'.typeRef c = .ok r ∧ typeRef W.typeRef c = .ok r :=
  follows_of_refines (by rw [h.same]; rfl) (typeRef_refines h.refines.typeRef) run

theorem typeRef_joins (h : D.Joins stop D' W) :
    Joins (typeRef D.typeRef) (typeRef D'.typeRef) (typeRef W.typeRef) :=
  of_refines (by rw [h.same]; rfl) (typeRef_refines h.refines.typeRef)

theorem localVariables_joins (h : D.Joins stop D' W) :
    Joins (localVariables D) (localVariables D') (localVariables W) :=
  of_refines (by rw [h.same]; rfl) (localVariables_refines h.refines)

theorem declarators_joins (h : D.Joins stop D' W) (first : Ident) :
    Joins (declarators D first) (declarators D' first) (declarators W first) :=
  of_refines (by rw [h.same]; rfl) (declarators_refines h.refines first)

theorem header_follows (h : D.Joins stop D' W) {r : ReadHeader × Cursor}
    (run : header D c = .ok r) : header D' c = .ok r ∧ header W c = .ok r :=
  follows_of_refines (by rw [h.same]; rfl) (header_refines h.refines) run

theorem parameters_joins (h : D.Joins stop D' W) :
    Joins (parameters D) (parameters D') (parameters W) :=
  of_refines (by rw [h.same]; rfl) (parameters_refines h.refines)

/-! ## Statements -/

theorem blockItem_joins (h : D.Joins stop D' W) :
    Joins (blockItem D) (blockItem D') (blockItem W) := by
  intro c x c₁ c₂ hp hq
  obtain ⟨inside, run⟩ := blockItem_ok.mp hp
  obtain ⟨rfl, joined⟩ := h.statement run (blockItem_ok.mp hq).2
  exact ⟨rfl, blockItem_ok.mpr ⟨inside, joined⟩⟩

theorem block_joins (h : D.Joins stop D' W) : Joins (block D) (block D') (block W) := by
  intro c x c₁ c₂ hp hq
  obtain ⟨opened, statements, d, run, closed, done⟩ := block_ok.mp hp
  obtain ⟨_, statements', d', run', _, done'⟩ := block_ok.mp hq
  cases done
  simp only [Prod.mk.injEq, Block.mk.injEq] at done'
  obtain ⟨⟨_, rfl⟩, rfl⟩ := done'
  obtain ⟨rfl, joined⟩ := itemsUntil (blockItem_joins h) _ run run'
  exact ⟨rfl, block_ok.mpr ⟨opened, _, _, joined, closed, rfl⟩⟩

theorem localVariablesAhead_joins (h : D.Joins stop D' W) :
    Joins (localVariablesAhead D) (localVariablesAhead D') (localVariablesAhead W) := by
  refine kind_bind fun k => ?_
  cases k with
  | name text => exact h.ahead _
  | _ => exact Joins.refl _

theorem ifLink_joins (h : D.Joins stop D' W) (start : Span) :
    Joins (ifLink D start) (ifLink D' start) (ifLink W start) := by
  intro c x c₁ c₂ hp hq
  obtain ⟨condition, d, yes, e, hc, hy, done⟩ := ifLink_ok.mp hp
  obtain ⟨condition', d', yes', e', hc', hy', done'⟩ := ifLink_ok.mp hq
  cases done
  cases done'
  obtain ⟨rfl, hc⟩ := parenthesized_joins h hc hc'
  obtain ⟨rfl, hy⟩ := h.statement hy hy'
  exact ⟨rfl, ifLink_ok.mpr ⟨_, _, _, _, hc, hy, rfl⟩⟩

theorem elseStep_joins (h : D.Joins stop D' W) (links : List IfLink) :
    Joins (elseStep D links) (elseStep D' links) (elseStep W links) := by
  intro c t c₁ c₂ hp hq
  rcases elseStep_ok.mp hp with ⟨helse, hif, link, _, run, turn⟩ |
    ⟨helse, hif, last, _, run, turn⟩ | ⟨helse, turn⟩
  · cases turn
    rcases elseStep_ok.mp hq with ⟨_, _, link', _, run', turn'⟩ | ⟨_, other, _⟩ | ⟨other, _⟩
    · cases turn'
      obtain ⟨rfl, joined⟩ := ifLink_joins h _ run run'
      exact ⟨rfl, elseStep_ok.mpr (.inl ⟨helse, hif, link, _, joined, rfl⟩)⟩
    · exact (other hif).elim
    · exact (other helse).elim
  · cases turn
    rcases elseStep_ok.mp hq with ⟨_, other, _⟩ | ⟨_, _, last', _, run', turn'⟩ | ⟨other, _⟩
    · exact (hif other).elim
    · cases turn'
      obtain ⟨rfl, joined⟩ := h.statement run run'
      exact ⟨rfl, elseStep_ok.mpr (.inr (.inl ⟨helse, hif, last, _, joined, rfl⟩))⟩
    · exact (other helse).elim
  · cases turn
    rcases elseStep_ok.mp hq with ⟨other, _⟩ | ⟨other, _⟩ | ⟨_, turn'⟩
    · exact (helse other).elim
    · exact (helse other).elim
    · cases turn'
      exact ⟨rfl, elseStep_ok.mpr (.inr (.inr ⟨helse, rfl⟩))⟩

theorem IfLink.close_inj {link link' : IfLink} {o o' : Option Statement} {d d' : Cursor}
    (h : link.close d o = link'.close d' o') :
    link.condition = link'.condition ∧ link.yes = link'.yes ∧ o = o' := by
  cases o <;> cases o' <;> simp only [IfLink.close, reduceCtorEq, Statement.ifThen.injEq,
    Statement.ifElse.injEq] at h
  · exact ⟨h.2.1, h.2.2, rfl⟩
  · exact ⟨h.2.1, h.2.2.1, congrArg some h.2.2.2⟩

theorem closeLinks_inj {links : List IfLink} {o o' : Option Statement} {d d' : Cursor}
    (h : closeLinks d links o = closeLinks d' links o') : o = o' := by
  induction links generalizing o o' with
  | nil => exact h
  | cons link earlier ih =>
    have := ih h
    simp only [Option.some.injEq] at this
    exact (IfLink.close_inj this).2.2

theorem closeLinks_append {d : Cursor} (later links : List IfLink) (o : Option Statement) :
    closeLinks d (later ++ links) o = closeLinks d links (closeLinks d later o) := by
  induction later generalizing o with
  | nil => rfl
  | cons link later ih => exact ih _

/-- The links read first are closed last. -/
theorem links_of_iterates {D : Deeper} {links : List IfLink} {c d : Cursor}
    {chain : List IfLink × Option Statement} (loop : Iterates (elseStep D) links c chain d) :
    ∃ later, chain.1 = later ++ links := by
  induction loop with
  | done run =>
    rcases elseStep_ok.mp run with ⟨_, _, _, _, _, turn⟩ | ⟨_, _, _, _, _, turn⟩ | ⟨_, turn⟩
    · cases turn
    · cases turn
      exact ⟨[], rfl⟩
    · cases turn
      exact ⟨[], rfl⟩
  | again run _ ih =>
    rcases elseStep_ok.mp run with ⟨_, _, link, _, _, turn⟩ | ⟨_, _, _, _, _, turn⟩ | ⟨_, turn⟩
    · cases turn
      obtain ⟨later, eq⟩ := ih
      exact ⟨later ++ [link], by simp [eq]⟩
    · cases turn
    · cases turn

theorem ifLink_start {start : Span} {link : IfLink} (h : ifLink D start c = .ok (link, c')) :
    link.start = start := by
  obtain ⟨_, _, _, _, _, _, done⟩ := ifLink_ok.mp h
  cases done
  rfl

theorem IfLink.ext_close {start : Span} {link link' : IfLink} {o o' : Option Statement}
    {d d' : Cursor} (hs : link.start = start) (hs' : link'.start = start)
    (h : link.close d o = link'.close d' o') : link' = link ∧ o' = o := by
  obtain ⟨hc, hy, ho⟩ := IfLink.close_inj h
  cases link
  cases link'
  cases hs
  cases hs'
  cases hc
  cases hy
  exact ⟨rfl, ho.symm⟩

/-- A turn of a chain of conditionals shows in the conditional that the chain is closed to. -/
theorem elseStep_shows {links : List IfLink}
    {t t' : Turn (List IfLink) (List IfLink × Option Statement)} {c₁ c₂ d d' : Cursor}
    {r r' : List IfLink × Option Statement} (run : elseStep D links c = .ok (t, c₁))
    (run' : elseStep D' links c = .ok (t', c₂)) (leads : Leads (elseStep D) t c₁ r d)
    (leads' : Leads (elseStep D') t' c₂ r' d')
    (same : closeLinks d r.1 r.2 = closeLinks d' r'.1 r'.2) : t' = t := by
  rcases elseStep_ok.mp run with ⟨helse, hif, link, _, read, turn⟩ |
    ⟨helse, hif, last, _, read, turn⟩ | ⟨helse, turn⟩
  · cases turn
    rcases elseStep_ok.mp run' with ⟨_, _, link', _, read', turn'⟩ | ⟨_, other, _⟩ | ⟨other, _⟩
    · cases turn'
      cases leads with
      | again loop =>
        cases leads' with
        | again loop' =>
          obtain ⟨later, eq⟩ := links_of_iterates loop
          obtain ⟨later', eq'⟩ := links_of_iterates loop'
          rw [eq, eq', closeLinks_append, closeLinks_append] at same
          have closed := Option.some.inj (closeLinks_inj same)
          rw [(IfLink.ext_close (ifLink_start read) (ifLink_start read') closed).1]
    · exact (other hif).elim
    · exact (other helse).elim
  · cases turn
    rcases elseStep_ok.mp run' with ⟨_, other, _⟩ | ⟨_, _, last', _, read', turn'⟩ | ⟨other, _⟩
    · exact (hif other).elim
    · cases turn'
      cases leads
      cases leads'
      have eq : some last = some last' := closeLinks_inj same
      cases eq
      rfl
    · exact (other helse).elim
  · cases turn
    rcases elseStep_ok.mp run' with ⟨other, _⟩ | ⟨other, _⟩ | ⟨_, turn'⟩
    · exact (helse other).elim
    · exact (helse other).elim
    · cases turn'
      rfl

theorem ifStatement_joins (h : D.Joins stop D' W) :
    Joins (ifStatement D) (ifStatement D') (ifStatement W) := by
  intro c x c₁ c₂ hp hq
  obtain ⟨hif, first, d, chain, e, read, run, done⟩ := ifStatement_ok.mp hp
  obtain ⟨_, first', d', chain', e', read', run', done'⟩ := ifStatement_ok.mp hq
  cases done
  simp only [Prod.mk.injEq] at done'
  obtain ⟨closed, rfl⟩ := done'
  obtain ⟨rfl, same⟩ := IfLink.ext_close (ifLink_start read) (ifLink_start read') closed.symm
  obtain ⟨rfl, joined⟩ := ifLink_joins h _ read read'
  obtain ⟨rfl, rfl, looped⟩ := iterateFor
    (fun r d r' d' => closeLinks d r.1 r.2 = closeLinks d' r'.1 r'.2) (elseStep_joins h)
    elseStep_shows run (iterates_of_iterate run') same.symm
  exact ⟨rfl, ifStatement_ok.mpr ⟨hif, _, _, _, _, joined, looped, rfl⟩⟩

theorem whileStatement_joins (h : D.Joins stop D' W) :
    Joins (whileStatement D) (whileStatement D') (whileStatement W) := by
  intro c x c₁ c₂ hp hq
  obtain ⟨hk, condition, d, body, e, hc, hb, done⟩ := whileStatement_ok.mp hp
  obtain ⟨_, condition', d', body', e', hc', hb', done'⟩ := whileStatement_ok.mp hq
  cases done
  simp only [Prod.mk.injEq, Statement.whileLoop.injEq] at done'
  obtain ⟨⟨_, rfl, rfl⟩, rfl⟩ := done'
  obtain ⟨rfl, hc⟩ := parenthesized_joins h hc hc'
  obtain ⟨rfl, hb⟩ := h.statement hb hb'
  exact ⟨rfl, whileStatement_ok.mpr ⟨hk, _, _, _, _, hc, hb, rfl⟩⟩

theorem doStatement_joins (h : D.Joins stop D' W) :
    Joins (doStatement D) (doStatement D') (doStatement W) := by
  intro c x c₁ c₂ hp hq
  obtain ⟨hk, body, d, hb, hw, condition, e, hc, hs, done⟩ := doStatement_ok.mp hp
  obtain ⟨_, body', d', hb', _, condition', e', hc', _, done'⟩ := doStatement_ok.mp hq
  cases done
  simp only [Prod.mk.injEq, Statement.doWhile.injEq] at done'
  obtain ⟨⟨_, rfl, rfl⟩, rfl⟩ := done'
  obtain ⟨rfl, hb⟩ := block_joins h hb hb'
  obtain ⟨rfl, hc⟩ := parenthesized_joins h hc hc'
  exact ⟨rfl, doStatement_ok.mpr ⟨hk, _, _, hb, hw, _, _, hc, hs, rfl⟩⟩

theorem forEachRest_joins (h : D.Joins stop D' W) (start : Span) :
    Joins (forEachRest D start) (forEachRest D' start) (forEachRest W start) := by
  intro c x c₁ c₂ hp hq
  obtain ⟨mods, d, type, e, name, f, hm, ht, hn, colon, items, g, hi, closed, body, k, hb, done⟩ :=
    forEachRest_ok.mp hp
  obtain ⟨mods', d', type', e', name', f', hm', ht', hn', _, items', g', hi', _, body', k', hb',
    done'⟩ := forEachRest_ok.mp hq
  cases done
  simp only [Prod.mk.injEq, Statement.forEach.injEq] at done'
  obtain ⟨⟨_, rfl, rfl, rfl, rfl, rfl⟩, rfl⟩ := done'
  obtain ⟨rfl, hm⟩ := Joins.refl _ hm hm'
  obtain ⟨rfl, ht⟩ := typeRef_joins h ht ht'
  obtain ⟨rfl, hn⟩ := Joins.refl _ hn hn'
  obtain ⟨rfl, hi⟩ := assignment_joins h hi hi'
  obtain ⟨rfl, hb⟩ := h.statement hb hb'
  exact ⟨rfl, forEachRest_ok.mpr
    ⟨_, _, _, _, _, _, hm, ht, hn, colon, _, _, hi, closed, _, _, hb, rfl⟩⟩

theorem forInit_joins (h : D.Joins stop D' W) : Joins (forInit D) (forInit D') (forInit W) := by
  intro c x c₁ c₂ hp hq
  rcases forInit_ok.mp hp with ⟨hk, done⟩ | ⟨hk, declares, d, ahead, rest⟩
  · cases done
    rcases forInit_ok.mp hq with ⟨_, done'⟩ | ⟨other, _⟩
    · cases done'
      exact ⟨rfl, forInit_ok.mpr (.inl ⟨hk, rfl⟩)⟩
    · exact (other hk).elim
  · rcases forInit_ok.mp hq with ⟨other, _⟩ | ⟨_, declares', d', ahead', rest'⟩
    · exact (hk other).elim
    · rcases rest with ⟨rfl, locals, e, run, done⟩ | ⟨rfl, values, e, run, done⟩
      · cases done
        rcases rest' with ⟨rfl, locals', e', run', done'⟩ | ⟨rfl, values', e', run', done'⟩
        · simp only [Prod.mk.injEq, ForInit.declaration.injEq] at done'
          obtain ⟨⟨_, rfl⟩, rfl⟩ := done'
          obtain ⟨rfl, ahead⟩ := localVariablesAhead_joins h ahead ahead'
          obtain ⟨rfl, run⟩ := localVariables_joins h run run'
          exact ⟨rfl, forInit_ok.mpr (.inr ⟨hk, _, _, ahead, .inl ⟨rfl, _, _, run, rfl⟩⟩)⟩
        · cases done'
      · cases done
        rcases rest' with ⟨rfl, locals', e', run', done'⟩ | ⟨rfl, values', e', run', done'⟩
        · cases done'
        · cases done'
          obtain ⟨rfl, ahead⟩ := localVariablesAhead_joins h ahead ahead'
          obtain ⟨rfl, run⟩ := expressions_joins h run run'
          exact ⟨rfl, forInit_ok.mpr (.inr ⟨hk, _, _, ahead, .inr ⟨rfl, _, _, run, rfl⟩⟩)⟩

theorem forLoopRest_joins (h : D.Joins stop D' W) (start : Span) :
    Joins (forLoopRest D start) (forLoopRest D' start) (forLoopRest W start) := by
  intro c x c₁ c₂ hp hq
  obtain ⟨init, d, hi, s, condition, e, hc, s₁, update, f, hu, closed, body, g, hb, done⟩ :=
    forLoopRest_ok.mp hp
  obtain ⟨init', d', hi', _, condition', e', hc', _, update', f', hu', _, body', g', hb', done'⟩ :=
    forLoopRest_ok.mp hq
  cases done
  simp only [Prod.mk.injEq, Statement.forLoop.injEq] at done'
  obtain ⟨⟨_, rfl, rfl, rfl, rfl⟩, rfl⟩ := done'
  obtain ⟨rfl, hi⟩ := forInit_joins h hi hi'
  obtain ⟨rfl, hc⟩ := optionalExpression_joins h hc hc'
  obtain ⟨rfl, hu⟩ := expressionsBefore_joins h _ hu hu'
  obtain ⟨rfl, hb⟩ := h.statement hb hb'
  exact ⟨rfl, forLoopRest_ok.mpr
    ⟨_, _, hi, s, _, _, hc, s₁, _, _, hu, closed, _, _, hb, rfl⟩⟩

/-- A loop over items is not a loop in three parts. -/
theorem forEachRest_ne_forLoopRest {start : Span} {x x' : Statement} {c₁ c₂ d : Cursor}
    (h : forEachRest D start c = .ok (x, c₁)) (h' : forLoopRest D' start d = .ok (x', c₂)) :
    x ≠ x' := by
  obtain ⟨_, _, _, _, _, _, _, _, _, _, _, _, _, _, _, _, _, done⟩ := forEachRest_ok.mp h
  obtain ⟨_, _, _, _, _, _, _, _, _, _, _, _, _, _, _, done'⟩ := forLoopRest_ok.mp h'
  cases done
  cases done'
  exact nofun

theorem forStatement_joins (h : D.Joins stop D' W) :
    Joins (forStatement D) (forStatement D') (forStatement W) := by
  intro c x c₁ c₂ hp hq
  obtain ⟨hk, opened, each, d, ahead, rest⟩ := forStatement_ok.mp hp
  obtain ⟨_, _, each', d', ahead', rest'⟩ := forStatement_ok.mp hq
  rcases rest with ⟨rfl, run⟩ | ⟨rfl, run⟩
  · rcases rest' with ⟨rfl, run'⟩ | ⟨rfl, run'⟩
    · obtain ⟨rfl, ahead⟩ := h.ahead _ ahead ahead'
      obtain ⟨rfl, run⟩ := forEachRest_joins h _ run run'
      exact ⟨rfl, forStatement_ok.mpr ⟨hk, opened, _, _, ahead, .inl ⟨rfl, run⟩⟩⟩
    · exact (forEachRest_ne_forLoopRest run run' rfl).elim
  · rcases rest' with ⟨rfl, run'⟩ | ⟨rfl, run'⟩
    · exact (forEachRest_ne_forLoopRest run' run rfl).elim
    · obtain ⟨rfl, ahead⟩ := h.ahead _ ahead ahead'
      obtain ⟨rfl, run⟩ := forLoopRest_joins h _ run run'
      exact ⟨rfl, forStatement_ok.mpr ⟨hk, opened, _, _, ahead, .inr ⟨rfl, run⟩⟩⟩

theorem catchClause?_joins (h : D.Joins stop D' W) :
    Joins (catchClause? D) (catchClause? D') (catchClause? W) := by
  intro c x c₁ c₂ hp hq
  rcases catchClause?_ok.mp hp with
    ⟨hk, opened, mods, d, type, e, name, f, hm, ht, hn, closed, body, g, hb, done⟩ | ⟨hk, done⟩
  · cases done
    rcases catchClause?_ok.mp hq with
      ⟨_, _, mods', d', type', e', name', f', hm', ht', hn', _, body', g', hb', done'⟩ | ⟨other, _⟩
    · simp only [Prod.mk.injEq, Option.some.injEq, CatchClause.mk.injEq] at done'
      obtain ⟨⟨_, rfl, rfl, rfl, rfl⟩, rfl⟩ := done'
      obtain ⟨rfl, hm⟩ := Joins.refl _ hm hm'
      obtain ⟨rfl, ht⟩ := typeRef_joins h ht ht'
      obtain ⟨rfl, hn⟩ := Joins.refl _ hn hn'
      obtain ⟨rfl, hb⟩ := block_joins h hb hb'
      exact ⟨rfl, catchClause?_ok.mpr
        (.inl ⟨hk, opened, _, _, _, _, _, _, hm, ht, hn, closed, _, _, hb, rfl⟩)⟩
    · exact (other hk).elim
  · cases done
    rcases catchClause?_ok.mp hq with ⟨other, _⟩ | ⟨_, done'⟩
    · exact (hk other).elim
    · cases done'
      exact ⟨rfl, catchClause?_ok.mpr (.inr ⟨hk, rfl⟩)⟩

theorem tryStatement_joins (h : D.Joins stop D' W) :
    Joins (tryStatement D) (tryStatement D') (tryStatement W) := by
  intro c x c₁ c₂ hp hq
  obtain ⟨hk, body, d, catches, e, hb, hc, rest⟩ := tryStatement_ok.mp hp
  obtain ⟨_, body', d', catches', e', hb', hc', rest'⟩ := tryStatement_ok.mp hq
  rcases rest with ⟨ends, last, f, hl, done⟩ | ⟨last, some, done⟩
  · cases done
    rcases rest' with ⟨_, last', f', hl', done'⟩ | ⟨_, _, done'⟩
    · simp only [Prod.mk.injEq, Statement.tryFinally.injEq] at done'
      obtain ⟨⟨_, rfl, rfl, rfl⟩, rfl⟩ := done'
      obtain ⟨rfl, hb⟩ := block_joins h hb hb'
      obtain ⟨rfl, hc⟩ := itemsWhile (catchClause?_joins h) hc hc'
      obtain ⟨rfl, hl⟩ := block_joins h hl hl'
      exact ⟨rfl, tryStatement_ok.mpr
        ⟨hk, _, _, _, _, hb, hc, .inl ⟨ends, _, _, hl, rfl⟩⟩⟩
    · cases done'
  · cases done
    rcases rest' with ⟨_, last', f', hl', done'⟩ | ⟨_, _, done'⟩
    · cases done'
    · simp only [Prod.mk.injEq, Statement.tryCatch.injEq] at done'
      obtain ⟨⟨_, rfl, rfl⟩, rfl⟩ := done'
      obtain ⟨rfl, hb⟩ := block_joins h hb hb'
      obtain ⟨rfl, hc⟩ := itemsWhile (catchClause?_joins h) hc hc'
      exact ⟨rfl, tryStatement_ok.mpr
        ⟨hk, _, _, _, _, hb, hc, .inr ⟨last, some, rfl⟩⟩⟩

theorem runAsStatement_joins (h : D.Joins stop D' W) :
    Joins (runAsStatement D) (runAsStatement D') (runAsStatement W) := by
  intro c x c₁ c₂ hp hq
  obtain ⟨hs, dot, hr, user, d, body, e, hu, hb, done⟩ := runAsStatement_ok.mp hp
  obtain ⟨_, _, _, user', d', body', e', hu', hb', done'⟩ := runAsStatement_ok.mp hq
  cases done
  simp only [Prod.mk.injEq, Statement.runAs.injEq] at done'
  obtain ⟨⟨_, rfl, rfl⟩, rfl⟩ := done'
  obtain ⟨rfl, hu⟩ := parenthesized_joins h hu hu'
  obtain ⟨rfl, hb⟩ := block_joins h hb hb'
  exact ⟨rfl, runAsStatement_ok.mpr ⟨hs, dot, hr, _, _, _, _, hu, hb, rfl⟩⟩

/-- A declaration of variables is not an expression. -/
theorem variablesStatement_ne_expressionStatement {x x' : Statement} {c₁ c₂ d : Cursor}
    (h : variablesStatement D c = .ok (x, c₁)) (h' : expressionStatement D' d = .ok (x', c₂)) :
    x ≠ x' := by
  obtain ⟨_, _, _, _, done⟩ := variablesStatement_ok.mp h
  obtain ⟨_, _, _, _, done'⟩ := expressionStatement_ok.mp h'
  cases done
  cases done'
  exact nofun

theorem plainStatement_joins (h : D.Joins stop D' W) :
    Joins (plainStatement D) (plainStatement D') (plainStatement W) := by
  have declared : Joins (variablesStatement D) (variablesStatement D') (variablesStatement W) :=
    of_refines (by rw [h.same]; rfl) (variablesStatement_refines h.refines)
  have expression : Joins (expressionStatement D) (expressionStatement D')
      (expressionStatement W) :=
    of_refines (by rw [h.same]; rfl) (expressionStatement_refines h.refines)
  intro c x c₁ c₂ hp hq
  rcases plainStatement_ok.mp hp with ⟨opened, body, d, run, done⟩ | ⟨empty, done⟩ |
    ⟨other, other', runAs, run⟩ | ⟨other, other', runAs, declares, d, ahead, rest⟩
  · cases done
    rcases plainStatement_ok.mp hq with ⟨_, body', d', run', done'⟩ | ⟨empty, _⟩ | ⟨other, _⟩ |
      ⟨other, _⟩
    · cases done'
      obtain ⟨rfl, run⟩ := block_joins h run run'
      exact ⟨rfl, plainStatement_ok.mpr (.inl ⟨opened, _, _, run, rfl⟩)⟩
    · rw [opened] at empty
      cases empty
    · exact (other opened).elim
    · exact (other opened).elim
  · cases done
    rcases plainStatement_ok.mp hq with ⟨opened, _⟩ | ⟨_, done'⟩ | ⟨_, other, _⟩ | ⟨_, other, _⟩
    · rw [opened] at empty
      cases empty
    · cases done'
      exact ⟨rfl, plainStatement_ok.mpr (.inr (.inl ⟨empty, rfl⟩))⟩
    · exact (other empty).elim
    · exact (other empty).elim
  · rcases plainStatement_ok.mp hq with ⟨opened, _⟩ | ⟨empty, _⟩ | ⟨_, _, _, run'⟩ | ⟨_, _, no, _⟩
    · exact (other opened).elim
    · exact (other' empty).elim
    · obtain ⟨rfl, run⟩ := runAsStatement_joins h run run'
      exact ⟨rfl, plainStatement_ok.mpr (.inr (.inr (.inl ⟨other, other', runAs, run⟩)))⟩
    · rw [runAs] at no
      cases no
  · rcases plainStatement_ok.mp hq with ⟨opened, _⟩ | ⟨empty, _⟩ | ⟨_, _, yes, _⟩ |
      ⟨_, _, _, declares', d', ahead', rest'⟩
    · exact (other opened).elim
    · exact (other' empty).elim
    · rw [runAs] at yes
      cases yes
    · rcases rest with ⟨rfl, run⟩ | ⟨rfl, run⟩
      · rcases rest' with ⟨rfl, run'⟩ | ⟨rfl, run'⟩
        · obtain ⟨rfl, ahead⟩ := localVariablesAhead_joins h ahead ahead'
          obtain ⟨rfl, run⟩ := declared run run'
          exact ⟨rfl, plainStatement_ok.mpr
            (.inr (.inr (.inr ⟨other, other', runAs, _, _, ahead, .inl ⟨rfl, run⟩⟩)))⟩
        · exact (variablesStatement_ne_expressionStatement run run' rfl).elim
      · rcases rest' with ⟨rfl, run'⟩ | ⟨rfl, run'⟩
        · exact (variablesStatement_ne_expressionStatement run' run rfl).elim
        · obtain ⟨rfl, ahead⟩ := localVariablesAhead_joins h ahead ahead'
          obtain ⟨rfl, run⟩ := expression run run'
          exact ⟨rfl, plainStatement_ok.mpr
            (.inr (.inr (.inr ⟨other, other', runAs, _, _, ahead, .inr ⟨rfl, run⟩⟩)))⟩

theorem statement_joins (h : D.Joins stop D' W) :
    Joins (statement D) (statement D') (statement W) := by
  refine kind_bind fun k => ?_
  split
  · exact ifStatement_joins h
  · exact whileStatement_joins h
  · exact doStatement_joins h
  · exact forStatement_joins h
  · exact tryStatement_joins h
  · exact of_refines (by rw [h.same]; rfl) (returnStatement_refines h.refines)
  · exact of_refines (by rw [h.same]; rfl) (throwStatement_refines h.refines)
  · exact Joins.refl _
  · exact Joins.refl _
  · exact of_refines (by rw [h.same]; rfl) (dmlStatement_refines h.refines _ _)
  · exact of_refines (by rw [h.same]; rfl) (dmlStatement_refines h.refines _ _)
  · exact of_refines (by rw [h.same]; rfl) (dmlStatement_refines h.refines _ _)
  · exact of_refines (by rw [h.same]; rfl) (dmlStatement_refines h.refines _ _)
  · exact of_refines (by rw [h.same]; rfl) (upsertStatement_refines h.refines)
  · exact of_refines (by rw [h.same]; rfl) (mergeStatement_refines h.refines)
  · exact plainStatement_joins h

/-! ## Members -/

theorem methodBody_joins (h : D.Joins stop D' W) :
    Joins (methodBody D) (methodBody D') (methodBody W) := by
  intro c x c₁ c₂ hp hq
  rcases methodBody_ok.mp hp with ⟨opened, body, d, run, done⟩ | ⟨empty, done⟩
  · cases done
    rcases methodBody_ok.mp hq with ⟨_, body', d', run', done'⟩ | ⟨_, done'⟩
    · cases done'
      obtain ⟨rfl, run⟩ := block_joins h run run'
      exact ⟨rfl, methodBody_ok.mpr (.inl ⟨opened, _, _, run, rfl⟩)⟩
    · cases done'
  · cases done
    rcases methodBody_ok.mp hq with ⟨_, body', d', run', done'⟩ | ⟨_, done'⟩
    · cases done'
    · cases done'
      exact ⟨rfl, methodBody_ok.mpr (.inr ⟨empty, rfl⟩)⟩

theorem methodRest_joins (h : D.Joins stop D' W) (header : Header) (returnType : Option TypeRef)
    {body body' body'' : Parser (Option Block)} (hb : Joins body body' body'') :
    Joins (methodRest D header returnType body) (methodRest D' header returnType body')
      (methodRest W header returnType body'') := by
  intro c x c₁ c₂ hp hq
  obtain ⟨name, d, params, e, read, f, hn, hs, run, done⟩ := methodRest_ok.mp hp
  obtain ⟨name', d', params', e', read', f', hn', hs', run', done'⟩ := methodRest_ok.mp hq
  cases done
  cases done'
  obtain ⟨rfl, hn⟩ := Joins.refl _ hn hn'
  obtain ⟨rfl, hs⟩ := parameters_joins h hs hs'
  obtain ⟨rfl, run⟩ := hb run run'
  exact ⟨rfl, methodRest_ok.mpr ⟨_, _, _, _, _, _, hn, hs, run, rfl⟩⟩

theorem constructorRest_joins (h : D.Joins stop D' W) (header : Header) :
    Joins (constructorRest D header) (constructorRest D' header) (constructorRest W header) := by
  intro c x c₁ c₂ hp hq
  obtain ⟨name, d, params, e, body, f, hn, hs, hb, done⟩ := constructorRest_ok.mp hp
  obtain ⟨name', d', params', e', body', f', hn', hs', hb', done'⟩ := constructorRest_ok.mp hq
  cases done
  cases done'
  obtain ⟨rfl, hn⟩ := Joins.refl _ hn hn'
  obtain ⟨rfl, hs⟩ := parameters_joins h hs hs'
  obtain ⟨rfl, hb⟩ := block_joins h hb hb'
  exact ⟨rfl, constructorRest_ok.mpr ⟨_, _, _, _, _, _, hn, hs, hb, rfl⟩⟩

theorem accessorBody_joins (h : D.Joins stop D' W) :
    Joins (accessorBody D) (accessorBody D') (accessorBody W) := by
  intro c x c₁ c₂ hp hq
  have body := methodBody_joins h (methodBody_ok.mpr (accessorBody_ok.mp hp))
    (methodBody_ok.mpr (accessorBody_ok.mp hq))
  exact ⟨body.1, accessorBody_ok.mpr (methodBody_ok.mp body.2)⟩

theorem accessor_joins (h : D.Joins stop D' W) (earlier : List Accessor) :
    Joins (accessor D earlier) (accessor D' earlier) (accessor W earlier) := by
  intro c x c₁ c₂ hp hq
  obtain ⟨mods, d, kind, hm, word, fresh, body, e, hb, done⟩ := accessor_ok.mp hp
  obtain ⟨mods', d', kind', hm', _, _, body', e', hb', done'⟩ := accessor_ok.mp hq
  cases done
  simp only [Prod.mk.injEq, Accessor.mk.injEq] at done'
  obtain ⟨⟨_, rfl, rfl, rfl⟩, rfl⟩ := done'
  obtain ⟨rfl, hm⟩ := Joins.refl _ hm hm'
  obtain ⟨rfl, hb⟩ := accessorBody_joins h hb hb'
  exact ⟨rfl, accessor_ok.mpr ⟨_, _, _, hm, word, fresh, _, _, hb, rfl⟩⟩

theorem accessors_joins (h : D.Joins stop D' W) :
    Joins (accessors D) (accessors D') (accessors W) := by
  have collects : ∀ D : Deeper, Collects (accessorStep D) := by
    intro D items c t c₁ run
    rcases accessorStep_ok.mp run with ⟨_, turn⟩ | ⟨_, a, _, _, turn⟩
    · cases turn
      exact .inr rfl
    · cases turn
      exact .inl ⟨a, rfl⟩
  refine collect (fun read => ?_) (collects D) (collects D') []
  intro c t c₁ c₂ run run'
  rcases accessorStep_ok.mp run with ⟨closed, turn⟩ | ⟨other, a, _, hr, turn⟩
  · rcases accessorStep_ok.mp run' with ⟨_, turn'⟩ | ⟨other, _⟩
    · cases turn
      cases turn'
      exact ⟨rfl, accessorStep_ok.mpr (.inl ⟨closed, rfl⟩)⟩
    · exact (other closed).elim
  · rcases accessorStep_ok.mp run' with ⟨closed, _⟩ | ⟨_, a', _, hr', turn'⟩
    · exact (other closed).elim
    · cases turn
      cases turn'
      obtain ⟨rfl, joined⟩ := accessor_joins h read hr hr'
      exact ⟨rfl, accessorStep_ok.mpr (.inr ⟨other, _, _, joined, rfl⟩)⟩

theorem propertyRest_joins (h : D.Joins stop D' W) (header : Header) (type : TypeRef)
    (name : Ident) :
    Joins (propertyRest D header type name) (propertyRest D' header type name)
      (propertyRest W header type name) := by
  intro c x c₁ c₂ hp hq
  obtain ⟨opened, read, d, run, some, closed, done⟩ := propertyRest_ok.mp hp
  obtain ⟨_, read', d', run', _, _, done'⟩ := propertyRest_ok.mp hq
  cases done
  simp only [Prod.mk.injEq, Property.mk.injEq] at done'
  obtain ⟨⟨_, _, _, rfl⟩, rfl⟩ := done'
  obtain ⟨rfl, run⟩ := accessors_joins h run run'
  exact ⟨rfl, propertyRest_ok.mpr ⟨opened, _, _, run, some, closed, rfl⟩⟩

theorem initializerRest_joins (h : D.Joins stop D' W) (header : Header) :
    Joins (initializerRest D header) (initializerRest D' header) (initializerRest W header) := by
  intro c x c₁ c₂ hp hq
  obtain ⟨bare, static, body, d, run, done⟩ := initializerRest_ok.mp hp
  obtain ⟨_, _, body', d', run', done'⟩ := initializerRest_ok.mp hq
  cases done
  cases done'
  obtain ⟨rfl, run⟩ := block_joins h run run'
  exact ⟨rfl, initializerRest_ok.mpr ⟨bare, static, _, _, run, rfl⟩⟩

theorem variableMember_joins (h : D.Joins stop D' W) (header : Header) (start : Span)
    (type : TypeRef) (name : Ident) :
    Joins (variableMember D header start type name) (variableMember D' header start type name)
      (variableMember W header start type name) := by
  intro c x c₁ c₂ hp hq
  rcases variableMember_ok.mp hp with ⟨property, d, run, done⟩ | ⟨hk, ds, d, run, closed, done⟩
  · cases done
    rcases variableMember_ok.mp hq with ⟨property', d', run', done'⟩ | ⟨_, _, _, _, _, done'⟩
    · simp only [Prod.mk.injEq, Member.property.injEq] at done'
      obtain ⟨⟨_, rfl⟩, rfl⟩ := done'
      obtain ⟨rfl, run⟩ := propertyRest_joins h header type name run run'
      exact ⟨rfl, variableMember_ok.mpr (.inl ⟨_, _, run, rfl⟩)⟩
    · cases done'
  · cases done
    rcases variableMember_ok.mp hq with ⟨property', d', run', done'⟩ | ⟨_, ds', d', run', _, done'⟩
    · cases done'
    · simp only [Prod.mk.injEq, Member.field.injEq, Field.mk.injEq] at done'
      obtain ⟨⟨_, _, _, rfl⟩, rfl⟩ := done'
      obtain ⟨rfl, run⟩ := declarators_joins h name run run'
      exact ⟨rfl, variableMember_ok.mpr (.inr ⟨hk, _, _, run, closed, rfl⟩)⟩

theorem typedMember_joins (h : D.Joins stop D' W) (header : Header) (start : Span) :
    Joins (typedMember D header start) (typedMember D' header start)
      (typedMember W header start) := by
  intro c m c₁ c₂ hp hq
  obtain ⟨type, d, ht, rest⟩ := typedMember_ok.mp hp
  obtain ⟨type', d', ht', rest'⟩ := typedMember_ok.mp hq
  obtain ⟨follows, ht⟩ := typeRef_follows h ht
  rw [follows] at ht'
  cases ht'
  rcases rest with ⟨call, method, e, run, done⟩ | ⟨other, name, e, hn, run⟩
  · cases done
    rcases rest' with ⟨_, method', e', run', done'⟩ | ⟨other, _⟩
    · simp only [Prod.mk.injEq, Member.method.injEq] at done'
      obtain ⟨⟨_, rfl⟩, rfl⟩ := done'
      obtain ⟨rfl, run⟩ := methodRest_joins h header _ (methodBody_joins h) run run'
      exact ⟨rfl, typedMember_ok.mpr ⟨_, _, ht, .inl ⟨call, _, _, run, rfl⟩⟩⟩
    · exact (other call).elim
  · rcases rest' with ⟨call, _⟩ | ⟨_, name', e', hn', run'⟩
    · exact (other call).elim
    · rw [hn] at hn'
      cases hn'
      obtain ⟨rfl, run⟩ := variableMember_joins h header start _ _ run run'
      exact ⟨rfl, typedMember_ok.mpr ⟨_, _, ht, .inr ⟨other, _, _, hn, run⟩⟩⟩

theorem classMember_joins (h : D.Joins stop D' W) (className : String) :
    Joins (classMember D className) (classMember D' className) (classMember W className) := by
  intro c m c₁ c₂ hp hq
  obtain ⟨read, d, hr, rest⟩ := classMember_ok.mp hp
  obtain ⟨read', d', hr', rest'⟩ := classMember_ok.mp hq
  obtain ⟨follows, hr⟩ := header_follows h hr
  rw [follows] at hr'
  cases hr'
  refine And.imp_right (fun rest => classMember_ok.mpr ⟨_, _, hr, rest⟩) ?_
  dsimp only at rest rest' ⊢
  cases hs : memberSort className d <;> simp only [hs] at rest rest' ⊢
  case initializer =>
    obtain ⟨i, e, run, done⟩ := rest
    obtain ⟨i', e', run', done'⟩ := rest'
    cases done
    simp only [Prod.mk.injEq, Member.initializer.injEq] at done'
    obtain ⟨⟨_, rfl⟩, rfl⟩ := done'
    obtain ⟨rfl, run⟩ := initializerRest_joins h _ run run'
    exact ⟨rfl, _, _, run, rfl⟩
  case type =>
    obtain ⟨t, e, run, done⟩ := rest
    obtain ⟨t', e', run', done'⟩ := rest'
    cases done
    cases done'
    obtain ⟨rfl, run⟩ := h.typeDeclaration _ run run'
    exact ⟨rfl, _, _, run, rfl⟩
  case void =>
    obtain ⟨method, e, run, done⟩ := rest
    obtain ⟨method', e', run', done'⟩ := rest'
    cases done
    simp only [Prod.mk.injEq, Member.method.injEq] at done'
    obtain ⟨⟨_, rfl⟩, rfl⟩ := done'
    obtain ⟨rfl, run⟩ := methodRest_joins h _ _ (methodBody_joins h) run run'
    exact ⟨rfl, _, _, run, rfl⟩
  case constructor =>
    obtain ⟨k, e, run, done⟩ := rest
    obtain ⟨k', e', run', done'⟩ := rest'
    cases done
    simp only [Prod.mk.injEq, Member.constructor.injEq] at done'
    obtain ⟨⟨_, rfl⟩, rfl⟩ := done'
    obtain ⟨rfl, run⟩ := constructorRest_joins h _ run run'
    exact ⟨rfl, _, _, run, rfl⟩
  case typed => exact typedMember_joins h _ _ rest rest'

theorem memberOrStray_joins (h : D.Joins stop D' W) (className : String) :
    Joins (memberOrStray D className) (memberOrStray D' className)
      (memberOrStray W className) := by
  intro c m c₁ c₂ hp hq
  rcases memberOrStray_ok.mp hp with ⟨stray, done⟩ | ⟨other, run⟩
  · cases done
    rcases memberOrStray_ok.mp hq with ⟨_, done'⟩ | ⟨other, _⟩
    · cases done'
      exact ⟨rfl, memberOrStray_ok.mpr (.inl ⟨stray, rfl⟩)⟩
    · exact (other stray).elim
  · rcases memberOrStray_ok.mp hq with ⟨stray, _⟩ | ⟨_, run'⟩
    · exact (other stray).elim
    · obtain ⟨rfl, run⟩ := classMember_joins h _ run run'
      exact ⟨rfl, memberOrStray_ok.mpr (.inr ⟨other, run⟩)⟩

/-! ## Types and files -/

theorem braced_joins {α : Type} {item item' item'' : Parser α} (h : Joins item item' item'') :
    Joins (braced item) (braced item') (braced item'') := by
  intro c x c₁ c₂ hp hq
  obtain ⟨opened, items, d, run, closed, done⟩ := braced_ok.mp hp
  obtain ⟨_, items', d', run', _, done'⟩ := braced_ok.mp hq
  cases done
  cases done'
  obtain ⟨rfl, run⟩ := itemsUntil h _ run run'
  exact ⟨rfl, braced_ok.mpr ⟨opened, _, _, run, closed, rfl⟩⟩

theorem typeDeclaration_joins (h : D.Joins stop D' W) (read : ReadHeader) :
    Joins (typeDeclaration D read) (typeDeclaration D' read) (typeDeclaration W read) := by
  intro c t c₁ c₂ hp hq
  rcases typeDeclaration_ok.mp hp with ⟨hk, head, d, members, e, hh, hm, done⟩ |
    ⟨hk, head, d, methods, e, hh, hm, done⟩ | ⟨hk, declaration, d, run, done⟩
  · cases done
    rcases typeDeclaration_ok.mp hq with ⟨_, head', d', members', e', hh', hm', done'⟩ |
      ⟨_, _, _, _, _, _, _, done'⟩ | ⟨_, _, _, _, done'⟩
    · simp only [Prod.mk.injEq, TypeDeclaration.classType.injEq] at done'
      obtain ⟨⟨_, rfl, rfl⟩, rfl⟩ := done'
      have heads : Joins (classHead D read.header) (classHead D' read.header)
          (classHead W read.header) :=
        of_refines (by rw [h.same]; rfl) (classHead_refines h.refines _)
      obtain ⟨rfl, hh⟩ := heads hh hh'
      obtain ⟨rfl, hm⟩ := braced_joins (memberOrStray_joins h _) hm hm'
      exact ⟨rfl, typeDeclaration_ok.mpr (.inl ⟨hk, _, _, _, _, hh, hm, rfl⟩)⟩
    · cases done'
    · cases done'
  · cases done
    rcases typeDeclaration_ok.mp hq with ⟨_, _, _, _, _, _, _, done'⟩ |
      ⟨_, head', d', methods', e', hh', hm', done'⟩ | ⟨_, _, _, _, done'⟩
    · cases done'
    · simp only [Prod.mk.injEq, TypeDeclaration.interfaceType.injEq] at done'
      obtain ⟨⟨_, rfl, rfl⟩, rfl⟩ := done'
      have heads : Joins (interfaceHead D read.header) (interfaceHead D' read.header)
          (interfaceHead W read.header) :=
        of_refines (by rw [h.same]; rfl) (interfaceHead_refines h.refines _)
      have methods : Joins (interfaceMethod D) (interfaceMethod D') (interfaceMethod W) :=
        of_refines (by rw [h.same]; rfl) (interfaceMethod_refines h.refines)
      obtain ⟨rfl, hh⟩ := heads hh hh'
      obtain ⟨rfl, hm⟩ := braced_joins methods hm hm'
      exact ⟨rfl, typeDeclaration_ok.mpr (.inr (.inl ⟨hk, _, _, _, _, hh, hm, rfl⟩))⟩
    · cases done'
  · cases done
    rcases typeDeclaration_ok.mp hq with ⟨other, _⟩ | ⟨other, _⟩ |
      ⟨_, declaration', d', run', done'⟩
    · rw [hk] at other
      cases other
    · rw [hk] at other
      cases other
    · rw [run] at run'
      cases run'
      cases done'
      exact ⟨rfl, typeDeclaration_ok.mpr (.inr (.inr ⟨hk, _, _, run, rfl⟩))⟩

theorem triggerDeclaration_joins (h : D.Joins stop D' W) :
    Joins (triggerDeclaration D) (triggerDeclaration D') (triggerDeclaration W) := by
  intro c t c₁ c₂ hp hq
  obtain ⟨hk, name, d, hn, on, object, e, ho, opened, events, f, he, closed, body, g, hb, done⟩ :=
    triggerDeclaration_ok.mp hp
  obtain ⟨_, name', d', hn', _, object', e', ho', _, events', f', he', _, body', g', hb', done'⟩ :=
    triggerDeclaration_ok.mp hq
  cases done
  simp only [Prod.mk.injEq, Declaration.trigger.injEq, Trigger.mk.injEq] at done'
  obtain ⟨⟨_, rfl, rfl, rfl, rfl⟩, rfl⟩ := done'
  obtain ⟨rfl, hn⟩ := Joins.refl _ hn hn'
  obtain ⟨rfl, ho⟩ := Joins.refl _ ho ho'
  obtain ⟨rfl, he⟩ := Joins.refl _ he he'
  obtain ⟨rfl, hb⟩ := block_joins h hb hb'
  exact ⟨rfl, triggerDeclaration_ok.mpr
    ⟨hk, _, _, hn, on, _, _, ho, opened, _, _, he, closed, _, _, hb, rfl⟩⟩

theorem declaration_joins (h : D.Joins stop D' W) :
    Joins (declaration D) (declaration D') (declaration W) := by
  intro c x c₁ c₂ hp hq
  rcases declaration_ok.mp hp with ⟨hk, run⟩ | ⟨hk, read, d, type, e, hr, ht, done⟩
  · rcases declaration_ok.mp hq with ⟨_, run'⟩ | ⟨other, _⟩
    · obtain ⟨rfl, run⟩ := triggerDeclaration_joins h run run'
      exact ⟨rfl, declaration_ok.mpr (.inl ⟨hk, run⟩)⟩
    · exact (other hk).elim
  · cases done
    rcases declaration_ok.mp hq with ⟨other, _⟩ | ⟨_, read', d', type', e', hr', ht', done'⟩
    · exact (hk other).elim
    · cases done'
      obtain ⟨follows, hr⟩ := header_follows h hr
      rw [follows] at hr'
      cases hr'
      obtain ⟨rfl, ht⟩ := typeDeclaration_joins h _ ht ht'
      exact ⟨rfl, declaration_ok.mpr (.inr ⟨hk, _, _, _, _, hr, ht, rfl⟩)⟩

theorem compilationUnit_joins (h : D.Joins stop D' W) :
    Joins (compilationUnit D) (compilationUnit D') (compilationUnit W) := by
  intro c u c₁ c₂ hp hq
  obtain ⟨found, d, run, ends, done⟩ := compilationUnit_ok.mp hp
  obtain ⟨found', d', run', _, done'⟩ := compilationUnit_ok.mp hq
  cases done
  simp only [Prod.mk.injEq, CompilationUnit.mk.injEq] at done'
  obtain ⟨⟨_, hd, hn⟩, rfl⟩ := done'
  have joined : d' = c₁ ∧ declarationAndSemicolons W c = .ok (found, c₁) := by
    rcases declarationAndSemicolons_ok.mp run with ⟨nothing, count, e, semis, done⟩ |
      ⟨some, x, e, count, f, hx, semis, done⟩
    · rcases declarationAndSemicolons_ok.mp run' with ⟨_, count', e', semis', done'⟩ | ⟨some, _⟩
      · rw [semis] at semis'
        cases semis'
        cases done
        cases done'
        exact ⟨rfl, declarationAndSemicolons_ok.mpr (.inl ⟨nothing, _, _, semis, rfl⟩)⟩
      · rw [nothing] at some
        cases some
    · rcases declarationAndSemicolons_ok.mp run' with ⟨nothing, _⟩ |
        ⟨_, x', e', count', f', hx', semis', done'⟩
      · rw [nothing] at some
        cases some
      · cases done
        cases done'
        simp only at hd
        subst hd
        obtain ⟨rfl, hx⟩ := declaration_joins h hx hx'
        rw [semis] at semis'
        cases semis'
        exact ⟨rfl, declarationAndSemicolons_ok.mpr (.inr ⟨some, _, _, _, _, hx, semis, rfl⟩)⟩
  obtain ⟨rfl, joined⟩ := joined
  exact ⟨rfl, compilationUnit_ok.mpr ⟨_, _, joined, ends, rfl⟩⟩

/-- Building a level more on levels that are joined joins them, whatever looks ahead. -/
theorem above_joins (h : D.Joins stop D' W)
    {a : (Parser TypeRef → Parser Unit) → Parser Bool}
    (ha : ∀ look, Joins ((above D).ahead look) ((above D').ahead look) (a look))
    (refines : Deeper.Refines stop { above W with ahead := a } (above D')) :
    Deeper.Joins stop (above D) (above D') { above W with ahead := a } where
  refines := refines
  same := by
    rw [h.same]
    rfl
  statement := statement_joins h
  typeDeclaration := typeDeclaration_joins h
  ahead := ha

end Grammar

end Apex
