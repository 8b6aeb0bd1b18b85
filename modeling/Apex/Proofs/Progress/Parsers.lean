import Apex.Proofs.Echo.Lookahead

/-!
# Parsers that make progress

A parser moves on over the tokens of its row and never over an end. Some parsers read a token
whenever they succeed, others if their value says so: an item that was there, a step of a loop that
asks to be run again. A loop whose steps do so ends by itself, so it is never broken off.
-/

namespace Apex

/-- Whether parsing stopped because a loop was broken off. Any other failure says what was expected
instead. -/
def ParseError.isBrokenOff : ParseError → Bool
  | .unexpected _ expected _ => expected.isEmpty
  | _ => false

/-- The kinds that a token inside a row can have. A parser that asks for one has read it. -/
class TokenKind.IsInside (k : TokenKind) : Prop where
  ne_endOfFile : k ≠ .endOfFile

instance (p : Punctuation) : (TokenKind.punctuation p).IsInside := ⟨by simp⟩

instance (o : Operator) : (TokenKind.operator o).IsInside := ⟨by simp⟩

instance (k : Keyword) : (TokenKind.keyword k).IsInside := ⟨by simp⟩

namespace Cursor

variable {c c₁ c' : Cursor}

/-- The place `c'` is reached from `c` without passing over an end. -/
structure Passes (c c' : Cursor) : Prop extends Upto c c' where
  inside : ∀ i t, c.position ≤ i → i < c'.position → c.tokens[i]? = some t → t.isEnd = false

theorem Passes.refl (c : Cursor) : c.Passes c := by
  refine ⟨.refl c, fun i t from_ to_ _ => ?_⟩
  omega

theorem Passes.trans (h : c.Passes c₁) (h' : c₁.Passes c') : c.Passes c' := by
  refine ⟨h.toUpto.trans h'.toUpto, fun i t from_ to_ found => ?_⟩
  by_cases first : i < c₁.position
  · exact h.inside i t from_ first found
  · rw [← h.tokens] at found
    exact h'.inside i t (by omega) to_ found

theorem passes_advance (c : Cursor) : c.Passes c.advance := by
  refine ⟨c.upto_advance, fun i t from_ to_ found => ?_⟩
  by_cases atEnd : c.current.isEnd = true
  · rw [advance_of_atEnd atEnd] at to_
    omega
  · have inside : c.current.isEnd = false := by simpa using atEnd
    rw [advance_of_not_atEnd inside] at to_
    have here : i = c.position := by
      have : i < c.position + 1 := to_
      omega
    subst here
    rw [Array.getElem?_eq_getElem c.inBounds] at found
    cases found
    exact inside

end Cursor

namespace Parser

variable {α β σ : Type}

/-! ## Putting parsers together -/

/-- How a run from `c` comes out: it succeeds, not beyond an end, and has read a token if the value
is one of those in `R`; or it fails, but not because a loop was broken off. -/
inductive Advances (R : α → Prop) (c : Cursor) : Except ParseError (α × Cursor) → Prop
  | ok {x : α} {c' : Cursor} (passes : c.Passes c') (reads : R x → c.position < c'.position) :
    Advances R c (.ok (x, c'))
  | error {e : ParseError} (other : e.isBrokenOff = false) : Advances R c (.error e)

/-- Wherever it is run, the parser moves on, and over a token for a value in `R`. -/
def ReadsIf (R : α → Prop) (p : Parser α) : Prop := ∀ c, Advances R c (p c)

/-- The parser moves on, but perhaps over no token. -/
abbrev Moves (p : Parser α) : Prop := ReadsIf (fun _ => False) p

/-- The parser reads a token wherever it succeeds. -/
abbrev Reads (p : Parser α) : Prop := ReadsIf (fun _ => True) p

variable {R S : α → Prop} {Q : β → Prop} {p q : Parser α} {f : α → Parser β} {c : Cursor}

theorem Advances.mono {r : Except ParseError (α × Cursor)} (h : Advances R c r)
    (imp : ∀ x, S x → R x) : Advances S c r := by
  cases h with
  | ok passes reads => exact .ok passes fun holds => reads (imp _ holds)
  | error other => exact .error other

/-- What a parser reads behind the place `c₁` it reads further on from `c`. -/
theorem Advances.behind {c₁ : Cursor} {r : Except ParseError (α × Cursor)} (first : c.Passes c₁)
    (h : Advances R c₁ r) : Advances R c r := by
  cases h with
  | ok passes reads =>
    exact .ok (first.trans passes) fun holds => Nat.lt_of_le_of_lt first.position (reads holds)
  | error other => exact .error other

/-- Behind a token that was read nothing more has to be. -/
theorem Advances.afterwards {c₁ : Cursor} {r : Except ParseError (α × Cursor)}
    (first : c.Passes c₁) (read : c.position < c₁.position) (h : Advances R c₁ r) :
    Advances S c r := by
  cases h with
  | ok passes reads => exact .ok (first.trans passes) fun _ => Nat.lt_of_lt_of_le read passes.position
  | error other => exact .error other

theorem Advances.bind (h : Advances R c (p c))
    (hf : ∀ x, ReadsIf (fun y => Q y ∧ ¬R x) (f x)) : Advances Q c ((p >>= f) c) := by
  show Advances Q c (p c >>= fun r => f r.1 r.2)
  generalize p c = first at h ⊢
  cases h with
  | @ok x c₁ passes reads =>
    show Advances Q c (f x c₁)
    by_cases holds : R x
    · exact (hf x c₁).afterwards passes (reads holds)
    · exact ((hf x c₁).mono fun y hy => ⟨hy, holds⟩).behind passes
  | error other => exact .error other

namespace ReadsIf

theorem mono (h : ReadsIf R p) (imp : ∀ x, S x → R x) : ReadsIf S p := fun c => (h c).mono imp

theorem moves (h : ReadsIf R p) : Moves p := h.mono fun _ => False.elim

theorem bind (h : ReadsIf R p) (hf : ∀ x, ReadsIf (fun y => Q y ∧ ¬R x) (f x)) :
    ReadsIf Q (p >>= f) := fun c => (h c).bind hf

theorem pure (x : α) (h : ¬R x) : ReadsIf R (Pure.pure x : Parser α) :=
  fun c => .ok (.refl c) fun holds => absurd holds h

theorem fail (expected : List String) (h : expected.isEmpty = false) :
    ReadsIf R (Parser.fail expected : Parser α) := fun _ => .error h

theorem throw (e : ParseError) (h : e.isBrokenOff = false) :
    ReadsIf R (MonadExcept.throw e : Parser α) := fun _ => .error h

theorem map {g : α → β} (h : ReadsIf R p) (hg : ∀ x, Q (g x) → R x) : ReadsIf Q (g <$> p) := by
  rw [← bind_pure_comp]
  exact h.bind fun x => .pure _ fun both => both.2 (hg x both.1)

theorem ite {t : Prop} [Decidable t] (hp : ReadsIf R p) (hq : ReadsIf R q) :
    ReadsIf R (if t then p else q) := by
  split
  · exact hp
  · exact hq

end ReadsIf

theorem Reads.bind (h : Reads p) (hf : ∀ x, Moves (f x)) : ReadsIf Q (p >>= f) :=
  ReadsIf.bind h fun x => (hf x).mono fun _ both => both.2 trivial

theorem Moves.bind (h : Moves p) (hf : ∀ x, ReadsIf Q (f x)) : ReadsIf Q (p >>= f) :=
  ReadsIf.bind h fun x => (hf x).mono fun _ both => both.1

theorem Moves.pure (x : α) : Moves (Pure.pure x : Parser α) := ReadsIf.pure x id

/-- A choice whose result goes on in the same way on both sides. -/
theorem Moves.iteBind {t : Prop} [Decidable t] (hp : Moves p) (hq : Moves q)
    (hf : ∀ x, ReadsIf Q (f x)) : ReadsIf Q (if t then p >>= f else q >>= f) :=
  .ite (hp.bind hf) (hq.bind hf)

/-- A check that only ever stops, and what follows it. -/
theorem Moves.check {t : Prop} [Decidable t] {r : Parser PUnit} {f : PUnit → Parser β}
    (hr : Moves r) (hf : ReadsIf Q (f ⟨⟩)) : ReadsIf Q (if t then r >>= f else f ⟨⟩) :=
  .ite (hr.bind fun _ => hf) hf

/-! ## Looking at tokens -/

namespace Moves

theorem current : Moves current := fun c => .ok (.refl c) False.elim

theorem here : Moves here := fun c => .ok (.refl c) False.elim

theorem kind : Moves kind := fun c => .ok (.refl c) False.elim

theorem kindAt (n : Nat) : Moves (kindAt n) := fun c => .ok (.refl c) False.elim

theorem isAt (sign : TokenKind) : Moves (isAt sign) := fun c => .ok (.refl c) False.elim

theorem get : Moves (get : Parser Cursor) := fun c => .ok (.refl c) False.elim

theorem advance : Moves advance := fun c => .ok c.passes_advance False.elim

theorem next : Moves next := fun c => .ok c.passes_advance False.elim

theorem skip (n : Nat) : Moves (skip n) := by
  induction n with
  | zero => exact pure ()
  | succ n ih => exact advance.bind fun _ => ih

theorem spanFrom (start : Span) : Moves (spanFrom start) := by
  intro c
  rw [spanFrom_eq]
  exact .ok (.refl c) False.elim

theorem matchesAhead (p : Parser Unit) : Moves (matchesAhead p) := by
  intro c
  unfold Parser.matchesAhead
  split
  · exact .ok (.refl c) False.elim
  · exact .ok (.refl c) False.elim

end Moves

theorem Advances.advanced {x : α} (inside : c.current.isEnd = false) :
    Advances R c (.ok (x, c.advance)) :=
  .ok c.passes_advance fun _ => (Cursor.before_advance inside).position

/-- Run at `c`, the parser moves on, and over a token for a value in `R`. -/
def ReadsFrom (c : Cursor) (R : α → Prop) (p : Parser α) : Prop := Advances R c (p c)

namespace ReadsFrom

theorem of (h : ReadsIf R p) : ReadsFrom c R p := h c

theorem pure (x : α) (h : ¬R x) : ReadsFrom c R (Pure.pure x : Parser α) := of (.pure x h)

theorem ite {t : Prop} [Decidable t] (hp : t → ReadsFrom c R p) (hq : ¬t → ReadsFrom c R q) :
    ReadsFrom c R (if t then p else q) := by
  split
  · next h => exact hp h
  · next h => exact hq h

theorem advance {f : PUnit → Parser β} (inside : c.current.isEnd = false)
    (hf : ∀ u, Moves (f u)) : ReadsFrom c Q (Parser.advance >>= f) :=
  (hf ⟨⟩ c.advance).afterwards c.passes_advance (Cursor.before_advance inside).position

theorem next {f : Token → Parser β} (inside : c.current.isEnd = false)
    (hf : ∀ t, Moves (f t)) : ReadsFrom c Q (Parser.next >>= f) :=
  (hf c.current c.advance).afterwards c.passes_advance (Cursor.before_advance inside).position

theorem skip {n : Nat} {f : PUnit → Parser β} (some : 0 < n) (inside : c.current.isEnd = false)
    (hf : ∀ u, Moves (f u)) : ReadsFrom c Q (Parser.skip n >>= f) := by
  obtain ⟨n, rfl⟩ := Nat.exists_eq_succ_of_ne_zero (Nat.ne_of_gt some)
  have read : Advances (fun _ => True) c (Parser.skip (n + 1) c) :=
    (Moves.skip n c.advance).afterwards c.passes_advance (Cursor.before_advance inside).position
  exact read.bind fun x => (hf x).mono fun _ both => both.2 trivial

end ReadsFrom

/-- What comes next may depend on the token under the cursor. -/
theorem ReadsIf.kindBind {f : TokenKind → Parser β}
    (h : ∀ c, ReadsFrom c Q (f c.current.kind)) : ReadsIf Q (kind >>= f) := h

theorem ReadsIf.currentBind {f : Token → Parser β}
    (h : ∀ c, ReadsFrom c Q (f c.current)) : ReadsIf Q (current >>= f) := h

theorem ReadsIf.isAtBind {k : TokenKind} {f : Bool → Parser β}
    (h : ∀ c, ReadsFrom c Q (f (c.current.kind == k))) : ReadsIf Q (isAt k >>= f) := h

theorem ReadsFrom.kindAtBind {n : Nat} {f : TokenKind → Parser β}
    (h : ReadsFrom c Q (f (c.peek n).kind)) : ReadsFrom c Q (kindAt n >>= f) := h

theorem ReadsIf.getBind {f : Cursor → Parser β} (h : ∀ c, ReadsFrom c Q (f c)) :
    ReadsIf Q (get >>= f) := h

theorem ReadsIf.accept (k : TokenKind) [k.IsInside] : ReadsIf (· = true) (accept k) := by
  intro c
  unfold Parser.accept
  split
  · next h => exact .advanced (isEnd_of_kind h TokenKind.IsInside.ne_endOfFile)
  · exact .ok (.refl c) nofun

/-- A token that is read if it is there. -/
theorem ReadsIf.acceptBind {k : TokenKind} [k.IsInside] {yes no : Parser β} (hy : Moves yes)
    (hn : ReadsIf Q no) :
    ReadsIf Q (Parser.accept k >>= fun found => if found then yes else no) := by
  refine (accept k).bind fun found => ?_
  cases found with
  | true => exact hy.mono fun _ both => both.2 rfl
  | false => exact hn.mono fun _ both => both.1

theorem Reads.expect (k : TokenKind) [k.IsInside] : Reads (expect k) := by
  intro c
  unfold Parser.expect
  split
  · next h => exact .advanced (isEnd_of_kind h TokenKind.IsInside.ne_endOfFile)
  · exact .error rfl

theorem Reads.expectWord (k : Keyword) : Reads (expectWord k) := by
  intro c
  unfold Parser.expectWord
  split
  · next h => exact .advanced (Token.isEnd_of_holds (·.spells k) h rfl)
  · exact .error rfl

/-! ## Loops -/

/-- Whether a loop goes on. -/
def Turn.IsAgain : Turn σ β → Prop
  | .again _ => True
  | .done _ => False

/-- How a loop comes out that is not broken off: as a step that fails or is done, or as the loop
that goes on behind a step which has read a token. -/
inductive Runs (step : σ → Parser (Turn σ β)) :
    σ → Cursor → Except ParseError (β × Cursor) → Prop where
  | fails {state c e} (h : step state c = .error e) : Runs step state c (.error e)
  | ends {state c result c'} (h : step state c = .ok (.done result, c')) (passes : c.Passes c') :
    Runs step state c (.ok (result, c'))
  | goesOn {state c state' c₁ outcome} (h : step state c = .ok (.again state', c₁))
    (passes : c.Passes c₁) (reads : c.position < c₁.position) (rest : Runs step state' c₁ outcome) :
    Runs step state c outcome

variable {step : σ → Parser (Turn σ β)}

/-- The limit of a loop is of no account if it is large enough. -/
theorem Runs.iterateFor_eq {state : σ} {outcome : Except ParseError (β × Cursor)} {limit : Nat}
    (h : Runs step state c outcome) (enough : c.remaining < limit) :
    iterateFor step limit state c = outcome := by
  induction h generalizing limit with
  | @fails state c e h =>
    obtain ⟨limit, rfl⟩ : ∃ l, limit = l + 1 := ⟨limit - 1, by omega⟩
    show (step state c >>= _) = _
    rw [h]
    rfl
  | @ends state c result c' h =>
    obtain ⟨limit, rfl⟩ : ∃ l, limit = l + 1 := ⟨limit - 1, by omega⟩
    show (step state c >>= _) = _
    rw [h]
    rfl
  | @goesOn state c state' c₁ outcome h passes reads rest ih =>
    obtain ⟨limit, rfl⟩ : ∃ l, limit = l + 1 := ⟨limit - 1, by omega⟩
    have closer : c₁.remaining < limit := by
      have := c₁.inBounds
      unfold Cursor.remaining at enough ⊢
      rw [passes.tokens] at this ⊢
      omega
    rw [iterateFor, bind_eq_of_ok h]
    exact ih closer

/-- A loop whose steps read a token whenever they ask to be run again is not broken off. -/
theorem runs_iterateFor (h : ∀ s, ReadsIf Turn.IsAgain (step s)) (limit : Nat) (state : σ)
    (c : Cursor) (enough : c.remaining < limit) :
    Runs step state c (iterateFor step limit state c) := by
  induction limit generalizing state c with
  | zero => omega
  | succ limit ih =>
    have turn := h state c
    generalize run : step state c = outcome at turn
    cases turn with
    | @error e other =>
      have same : iterateFor step (limit + 1) state c = .error e := by
        show (step state c >>= _) = _
        rw [run]
        rfl
      rw [same]
      exact .fails run
    | @ok turn c₁ passes reads =>
      rw [iterateFor, bind_eq_of_ok run]
      cases turn with
      | done result => exact .ends run passes
      | again state' =>
        have closer : c₁.remaining < limit := by
          have inBounds := c₁.inBounds
          have := reads trivial
          unfold Cursor.remaining at enough ⊢
          rw [passes.tokens] at inBounds ⊢
          omega
        exact .goesOn run passes (reads trivial) (ih state' c₁ closer)

theorem runs_iterate (h : ∀ s, ReadsIf Turn.IsAgain (step s)) (state : σ) (c : Cursor) :
    Runs step state c (iterate step state c) :=
  runs_iterateFor h _ state c (Nat.lt_succ_self _)

/-- A loop is its first step and the loop behind it. -/
theorem iterate_eq_step (h : ∀ s, ReadsIf Turn.IsAgain (step s)) (state : σ) :
    iterate step state = (do
      match ← step state with
      | .again state' => iterate step state'
      | .done result => return result) := by
  funext c
  have run := runs_iterate h state c
  generalize outcome : iterate step state c = result at run ⊢
  cases run with
  | fails failed =>
    show _ = (step state c >>= _)
    rw [failed]
    rfl
  | ends done passes => rw [bind_eq_of_ok done]; rfl
  | goesOn again passes reads rest =>
    rw [bind_eq_of_ok again]
    exact (rest.iterateFor_eq (Nat.lt_succ_self _)).symm

/-- A loop that is done at once. -/
theorem iterate_of_done {state : σ} {result : β} {c' : Cursor}
    (h : step state c = .ok (.done result, c')) : iterate step state c = .ok (result, c') := by
  rw [iterate, iterateFor, bind_eq_of_ok h]
  rfl

/-- A loop moves on if its steps read a token whenever they ask to be run again. -/
theorem Moves.iterate (h : ∀ s, ReadsIf Turn.IsAgain (step s)) (state : σ) :
    Moves (iterate step state) := by
  intro c
  have run := runs_iterate h state c
  generalize Parser.iterate step state c = outcome at run
  induction run with
  | @fails state c e failed =>
    have turn := h state c
    rw [failed] at turn
    cases turn with
    | error other => exact .error other
  | ends done passes => exact .ok passes False.elim
  | goesOn again passes reads rest ih => exact ih.behind passes

/-- A step that reads one more item. -/
theorem ReadsIf.againCons {items : List α} (h : Reads p) :
    ReadsIf Turn.IsAgain
      (do return .again ((← p) :: items) : Parser (Turn (List α) (List α))) :=
  Reads.bind h fun _ => Moves.pure _

theorem ReadsIf.done (result : β) :
    ReadsIf Turn.IsAgain (Pure.pure (.done result) : Parser (Turn σ β)) := .pure _ id

theorem untilStep_reads {stop : TokenKind} (h : Reads p) (items : List α) :
    ReadsIf Turn.IsAgain (untilStep stop p items) :=
  (Moves.isAt stop).bind fun _ => .ite (.done _) (.againCons h)

theorem whileStep_reads {item? : Parser (Option α)} (h : ReadsIf (·.isSome = true) item?)
    (items : List α) : ReadsIf Turn.IsAgain (whileStep item? items) := by
  refine h.bind fun found => ?_
  cases found with
  | some x => exact .pure _ fun both => both.2 rfl
  | none => exact .pure _ And.left

theorem commaStep_reads (h : Moves p) (items : List α) :
    ReadsIf Turn.IsAgain (commaStep p items) :=
  .acceptBind (h.bind fun _ => Moves.pure _) (.done _)

theorem semicolonStep_reads (count : Nat) : ReadsIf Turn.IsAgain (semicolonStep count) :=
  .acceptBind (Moves.pure _) (.done _)

theorem itemsUntil_moves (stop : TokenKind) (h : Reads p) : Moves (itemsUntil stop p) :=
  .iterate (untilStep_reads h) []

theorem itemsWhile_moves {item? : Parser (Option α)} (h : ReadsIf (·.isSome = true) item?) :
    Moves (itemsWhile item?) :=
  .iterate (whileStep_reads h) []

theorem commaSeparatedFrom_moves (first : α) (h : Moves p) : Moves (commaSeparatedFrom first p) :=
  .iterate (commaStep_reads h) [first]

theorem commaSeparated_reads (h : Reads p) : Reads (commaSeparated p) :=
  Reads.bind h fun first => commaSeparatedFrom_moves first h.moves

theorem semicolons_moves : Moves semicolons := .iterate semicolonStep_reads 0

/-! ## Names -/

theorem identifier_reads : Reads identifier := by
  intro c
  unfold identifier
  split
  · next text h => exact .advanced (isEnd_of_kind h nofun)
  · exact .error rfl

theorem memberName_reads : Reads memberName := by
  intro c
  unfold memberName
  split
  · next text h => exact .advanced (isEnd_of_writtenWord? h)
  · exact .error rfl

theorem partStep_reads (parts : List Ident) : ReadsIf Turn.IsAgain (partStep parts) :=
  .acceptBind (memberName_reads.moves.bind fun _ => Moves.pure _) (.done _)

theorem qualifiedName_reads : Reads qualifiedName :=
  Moves.here.bind fun _ => identifier_reads.bind fun first =>
    (Moves.iterate partStep_reads [first]).bind fun _ => (Moves.spanFrom _).bind fun _ => Moves.pure _

end Parser

end Apex
