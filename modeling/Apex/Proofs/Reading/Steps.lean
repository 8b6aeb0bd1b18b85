import Apex.Grammar.Parser

/-!
# When a parser succeeds

For every combinator there is an equivalence that says what a successful run consists of. Runs of
the loop are derivations of `Iterates`; lists that a loop collects are derivations of `Items`. The
lemmas are used in both directions: to take a run apart, and to put one together.
-/

namespace Apex

namespace Cursor

variable {c c₁ c' : Cursor}

/-- The place `c'` is on the same row as `c` and not before it. -/
structure Upto (c c' : Cursor) : Prop where
  tokens : c'.tokens = c.tokens
  position : c.position ≤ c'.position

/-- The place `c'` is on the same row as `c` and behind it. -/
structure Before (c c' : Cursor) : Prop where
  tokens : c'.tokens = c.tokens
  position : c.position < c'.position

theorem Upto.refl (c : Cursor) : c.Upto c := ⟨rfl, Nat.le_refl _⟩

theorem Before.upto (h : c.Before c') : c.Upto c' := ⟨h.tokens, Nat.le_of_lt h.position⟩

theorem Upto.trans (h : c.Upto c₁) (h' : c₁.Upto c') : c.Upto c' :=
  ⟨h'.tokens.trans h.tokens, Nat.le_trans h.position h'.position⟩

theorem Before.trans_upto (h : c.Before c₁) (h' : c₁.Upto c') : c.Before c' :=
  ⟨h'.tokens.trans h.tokens, Nat.lt_of_lt_of_le h.position h'.position⟩

theorem Upto.trans_before (h : c.Upto c₁) (h' : c₁.Before c') : c.Before c' :=
  ⟨h'.tokens.trans h.tokens, Nat.lt_of_le_of_lt h.position h'.position⟩

theorem Before.trans (h : c.Before c₁) (h' : c₁.Before c') : c.Before c' :=
  h.trans_upto h'.upto

theorem ext_position (ht : c'.tokens = c.tokens) (hp : c'.position = c.position) : c' = c := by
  cases c
  cases c'
  cases ht
  cases hp
  rfl

theorem current_eq (c : Cursor) (h : c.position < c.tokens.size) :
    c.current = c.tokens[c.position] := rfl

/-- A token that is not the end has another one behind it. -/
theorem position_lt_of_not_atEnd (h : c.current.isEnd = false) :
    c.position + 1 < c.tokens.size := by
  have inBounds := c.inBounds
  have ends := c.endsRow
  by_cases last : c.position = c.tokens.size - 1
  · rw [c.current_eq inBounds] at h
    simp only [last] at h
    rw [ends] at h
    cases h
  · omega

theorem advance_of_not_atEnd (h : c.current.isEnd = false) :
    c.advance =
      { c with position := c.position + 1, inBounds := position_lt_of_not_atEnd h } := by
  unfold advance
  rw [dif_pos (position_lt_of_not_atEnd h), if_neg (by simpa [atEnd] using h)]

theorem advance_of_atEnd (h : c.current.isEnd = true) : c.advance = c := by
  unfold advance
  split
  · exact if_pos h
  · rfl

theorem before_advance (h : c.current.isEnd = false) : c.Before c.advance := by
  rw [advance_of_not_atEnd h]
  exact ⟨rfl, Nat.lt_succ_self _⟩

theorem advance_tokens (c : Cursor) : c.advance.tokens = c.tokens := by
  unfold advance
  split
  · split <;> rfl
  · rfl

theorem upto_advance (c : Cursor) : c.Upto c.advance := by
  refine ⟨c.advance_tokens, ?_⟩
  unfold advance
  split
  · split
    · exact Nat.le_refl _
    · exact Nat.le_succ _
  · exact Nat.le_refl _

/-- Behind the end of a row there is nothing. -/
theorem last_of_atEnd (stray : c.strayAfterEnd? = none) (upto : c.Upto c')
    (ends : c'.atEnd = true) : c'.position + 1 = c.tokens.size := by
  have inBounds : c'.position < c.tokens.size := by
    have inBounds := c'.inBounds
    rwa [upto.tokens] at inBounds
  have isEnd : c.tokens[c'.position].isEnd = true := by
    obtain ⟨row, position, _, _⟩ := c'
    obtain ⟨rfl, _⟩ := upto
    exact ends
  unfold strayAfterEnd? at stray
  cases found : c.tokens.findIdx? Token.isEnd with
  | none =>
    have := Array.findIdx?_eq_none_iff.mp found _ (Array.getElem_mem inBounds)
    rw [isEnd] at this
    cases this
  | some i =>
    rw [found] at stray
    have beyond := Array.getElem?_eq_none_iff.mp stray
    have first : i ≤ c'.position := by
      refine Nat.le_of_not_lt fun later => ?_
      have := (Array.findIdx?_eq_some_iff_getElem.mp found).2.2 c'.position later
      rw [isEnd] at this
      exact this rfl
    omega

theorem peek_zero (c : Cursor) : c.peek 0 = c.current := by
  have place : min (c.position + 0) (c.tokens.size - 1) = c.position := by
    have := c.inBounds
    omega
  simp only [peek, c.current_eq c.inBounds, place]

/-- The token one place on is the one under the cursor there. -/
theorem peek_succ (h : c.current.isEnd = false) (n : Nat) :
    c.peek (n + 1) = c.advance.peek n := by
  rw [advance_of_not_atEnd h]
  unfold peek
  simp only [Nat.add_comm n 1, Nat.add_assoc]

theorem peek_one (h : c.current.isEnd = false) : c.peek 1 = c.advance.current := by
  rw [peek_succ h, peek_zero]

/-- The cursor some tokens on. -/
def advances (c : Cursor) : Nat → Cursor
  | 0 => c
  | n + 1 => c.advance.advances n

/-- The span that a parser gives a node which starts with the span `start` and ends here. -/
def spanFrom (c : Cursor) (start : Span) : Span :=
  match c.previous? with
  | some last => if start.start ≤ last.span.stop then start.merge last.span else start
  | none => start

theorem previous?_of_before (h : c.Before c') :
    c'.previous? = c'.tokens[c'.position - 1]? := if_neg (Nat.ne_of_gt (Nat.zero_lt_of_lt h.position))

theorem previous?_advance (h : c.current.isEnd = false) : c.advance.previous? = some c.current := by
  have inBounds := c.inBounds
  rw [previous?_of_before (before_advance h), advance_of_not_atEnd h]
  simp [c.current_eq inBounds]

/-- A span that starts and ends with one token is that token's span. -/
theorem spanFrom_advance (h : c.current.isEnd = false) :
    c.advance.spanFrom c.current.span = c.current.span := by
  unfold spanFrom
  rw [previous?_advance h]
  simp [Span.merge]

end Cursor

namespace Parser

variable {α β σ : Type} {c c' : Cursor}

/-! ## Single steps -/

@[simp 900] theorem bind_ok {p : Parser α} {f : α → Parser β} {r : β × Cursor} :
    (p >>= f) c = .ok r ↔ ∃ a c₁, p c = .ok (a, c₁) ∧ f a c₁ = .ok r := by
  show (p c >>= fun r => f r.1 r.2) = .ok r ↔ _
  cases h : p c with
  | error e => exact ⟨nofun, fun ⟨_, _, h', _⟩ => by cases h'⟩
  | ok s =>
    constructor
    · intro h'
      exact ⟨s.1, s.2, rfl, h'⟩
    · rintro ⟨a, c₁, h', run⟩
      cases h'
      exact run

/-- Behind a parser whose run is known, its continuation runs. -/
theorem bind_of_ok {p : Parser α} {a : α} {c₁ : Cursor} (h : p c = .ok (a, c₁))
    {f : α → Parser β} {r : β × Cursor} : (p >>= f) c = .ok r ↔ f a c₁ = .ok r := by
  rw [bind_ok]
  constructor
  · rintro ⟨_, _, h', run⟩
    rw [h] at h'
    cases h'
    exact run
  · exact fun run => ⟨a, c₁, h, run⟩

/-- Behind a parser whose run is known, the continuation is what is run. -/
theorem bind_eq_of_ok {p : Parser α} {a : α} {c₁ : Cursor} (h : p c = .ok (a, c₁))
    (f : α → Parser β) : (p >>= f) c = f a c₁ := by
  show (p c >>= fun r => f r.1 r.2) = f a c₁
  rw [h]
  rfl

@[simp 900] theorem map_ok {p : Parser α} {f : α → β} {r : β × Cursor} :
    (f <$> p) c = .ok r ↔ ∃ a c₁, p c = .ok (a, c₁) ∧ (f a, c₁) = r := by
  have done (b : β) (c : Cursor) : (pure b : Parser β) c = .ok (b, c) := rfl
  rw [← bind_pure_comp, bind_ok]
  simp only [done, Except.ok.injEq]

@[simp] theorem pure_ok {a : α} {r : α × Cursor} : (pure a : Parser α) c = .ok r ↔ (a, c) = r := by
  rw [show (pure a : Parser α) c = .ok (a, c) from rfl, Except.ok.injEq]

@[simp] theorem fail_ok {expected : List String} {r : α × Cursor} :
    (fail expected : Parser α) c = .ok r ↔ False := by
  simp only [fail, reduceCtorEq]

@[simp] theorem throw_ok {e : ParseError} {r : α × Cursor} :
    (throw e : Parser α) c = .ok r ↔ False :=
  ⟨nofun, nofun⟩

section Binds

variable {f : α → Parser β} {r : β × Cursor}

@[simp] theorem get_bind_ok {f : Cursor → Parser β} :
    (get >>= f) c = .ok r ↔ f c c = .ok r := Iff.rfl

@[simp] theorem current_bind_ok {f : Token → Parser β} :
    (current >>= f) c = .ok r ↔ f c.current c = .ok r := Iff.rfl

@[simp] theorem kind_bind_ok {f : TokenKind → Parser β} :
    (kind >>= f) c = .ok r ↔ f c.current.kind c = .ok r := Iff.rfl

@[simp] theorem here_bind_ok {f : Span → Parser β} :
    (here >>= f) c = .ok r ↔ f c.current.span c = .ok r := Iff.rfl

@[simp] theorem kindAt_bind_ok {n : Nat} {f : TokenKind → Parser β} :
    (kindAt n >>= f) c = .ok r ↔ f (c.peek n).kind c = .ok r := Iff.rfl

@[simp] theorem advance_bind_ok {f : PUnit → Parser β} :
    (advance >>= f) c = .ok r ↔ f ⟨⟩ c.advance = .ok r := Iff.rfl

@[simp] theorem next_bind_ok {f : Token → Parser β} :
    (next >>= f) c = .ok r ↔ f c.current c.advance = .ok r := Iff.rfl

@[simp] theorem isAt_bind_ok {k : TokenKind} {f : Bool → Parser β} :
    (isAt k >>= f) c = .ok r ↔ f (c.current.kind == k) c = .ok r := Iff.rfl

theorem skip_eq (n : Nat) : skip n c = .ok ((), c.advances n) := by
  induction n generalizing c with
  | zero => rfl
  | succ n ih => exact ih

@[simp] theorem skip_bind_ok {n : Nat} {f : PUnit → Parser β} :
    (skip n >>= f) c = .ok r ↔ f ⟨⟩ (c.advances n) = .ok r := bind_of_ok (skip_eq n)

theorem spanFrom_eq (start : Span) : spanFrom start c = .ok (c.spanFrom start, c) := by
  unfold spanFrom Cursor.spanFrom
  cases c.previous? <;> rfl

@[simp] theorem spanFrom_bind_ok {start : Span} {f : Span → Parser β} :
    (spanFrom start >>= f) c = .ok r ↔ f (c.spanFrom start) c = .ok r := bind_of_ok (spanFrom_eq start)

@[simp] theorem spanFrom_map_ok {start : Span} {f : Span → β} :
    (f <$> spanFrom start) c = .ok r ↔ (f (c.spanFrom start), c) = r := by
  rw [← bind_pure_comp, spanFrom_bind_ok, pure_ok]

@[simp] theorem advance_map_ok {f : PUnit → β} :
    (f <$> advance) c = .ok r ↔ (f ⟨⟩, c.advance) = r := by
  rw [← bind_pure_comp, advance_bind_ok, pure_ok]

@[simp] theorem kindAt_map_ok {n : Nat} {f : TokenKind → β} :
    (f <$> kindAt n) c = .ok r ↔ (f (c.peek n).kind, c) = r := by
  rw [← bind_pure_comp, kindAt_bind_ok, pure_ok]

@[simp] theorem here_map_ok {f : Span → β} :
    (f <$> here) c = .ok r ↔ (f c.current.span, c) = r := by
  rw [← bind_pure_comp, here_bind_ok, pure_ok]

@[simp] theorem next_map_ok {f : Token → β} :
    (f <$> next) c = .ok r ↔ (f c.current, c.advance) = r := by
  rw [← bind_pure_comp, next_bind_ok, pure_ok]

theorem accept_eq_true {k : TokenKind} (h : c.current.kind = k) :
    accept k c = .ok (true, c.advance) := if_pos h

theorem accept_eq_false {k : TokenKind} (h : c.current.kind ≠ k) :
    accept k c = .ok (false, c) := if_neg h

@[simp] theorem accept_bind_ok {k : TokenKind} {f : Bool → Parser β} :
    (accept k >>= f) c = .ok r ↔
      (c.current.kind = k ∧ f true c.advance = .ok r) ∨
        (c.current.kind ≠ k ∧ f false c = .ok r) := by
  by_cases h : c.current.kind = k
  · rw [bind_of_ok (accept_eq_true h)]
    simp [h]
  · rw [bind_of_ok (accept_eq_false h)]
    simp [h]

@[simp] theorem expect_ok {k : TokenKind} {r : Span × Cursor} :
    expect k c = .ok r ↔ c.current.kind = k ∧ (c.current.span, c.advance) = r := by
  unfold expect
  split
  · next h => simp [h]
  · next h => simp [h]

@[simp] theorem expect_bind_ok {k : TokenKind} {f : Span → Parser β} :
    (expect k >>= f) c = .ok r ↔
      c.current.kind = k ∧ f c.current.span c.advance = .ok r := by
  by_cases h : c.current.kind = k
  · rw [bind_of_ok (expect_ok.mpr ⟨h, rfl⟩)]
    simp [h]
  · rw [bind_ok]
    simp [h]

@[simp] theorem expect_map_ok {k : TokenKind} {f : Span → β} :
    (f <$> expect k) c = .ok r ↔
      c.current.kind = k ∧ (f c.current.span, c.advance) = r := by
  rw [← bind_pure_comp, expect_bind_ok, pure_ok]

@[simp] theorem accept_map_ok {k : TokenKind} {f : Bool → β} :
    (f <$> accept k) c = .ok r ↔
      (c.current.kind = k ∧ (f true, c.advance) = r) ∨
        (c.current.kind ≠ k ∧ (f false, c) = r) := by
  rw [← bind_pure_comp, accept_bind_ok, pure_ok, pure_ok]

@[simp] theorem expectWord_ok {k : Keyword} {r : Span × Cursor} :
    expectWord k c = .ok r ↔
      c.current.kind.spells k = true ∧ (c.current.span, c.advance) = r := by
  unfold expectWord
  split
  · next h => simp [h]
  · next h => simp [h]

@[simp] theorem expectWord_bind_ok {k : Keyword} {f : Span → Parser β} :
    (expectWord k >>= f) c = .ok r ↔
      c.current.kind.spells k = true ∧ f c.current.span c.advance = .ok r := by
  by_cases h : c.current.kind.spells k = true
  · rw [bind_of_ok (expectWord_ok.mpr ⟨h, rfl⟩)]
    simp [h]
  · rw [bind_ok]
    simp [h]

end Binds

theorem identifier_ok {r : Ident × Cursor} :
    identifier c = .ok r ↔
      ∃ text, c.current.kind = .name text ∧ (⟨text, c.current.span⟩, c.advance) = r := by
  unfold identifier
  split
  · next text h => simp [h]
  · next other =>
    simp only [fail_ok, false_iff, not_exists, not_and]
    exact fun text h => (other text h).elim

theorem memberName_ok {r : Ident × Cursor} :
    memberName c = .ok r ↔
      ∃ text, c.current.writtenWord? = some text ∧
        (⟨text, c.current.span⟩, c.advance) = r := by
  unfold memberName
  split
  · next text h => simp [h]
  · next h => simp [h, fail_ok]

@[simp] theorem ite_ok {P : Prop} [Decidable P] {p q : Parser α} {r : α × Cursor} :
    (if P then p else q) c = .ok r ↔ (P ∧ p c = .ok r) ∨ (¬P ∧ q c = .ok r) := by
  split
  · next h => simp [h]
  · next h => simp [h]

theorem matchesAhead_ok {p : Parser Unit} {r : Bool × Cursor} :
    matchesAhead p c = .ok r ↔ ((p c).isOk, c) = r := by
  unfold matchesAhead
  cases p c <;> simp [Except.isOk, Except.toBool]

theorem matchesAhead_stays {p : Parser Unit} {found : Bool}
    (h : matchesAhead p c = .ok (found, c')) : c' = c := by
  cases matchesAhead_ok.mp h
  rfl

/-! ## Loops -/

/-- A loop that starts in a state and ends with a result reads from one place to another. -/
inductive Iterates (step : σ → Parser (Turn σ β)) : σ → Cursor → β → Cursor → Prop where
  /-- The step is done. -/
  | done {state c result c'} (h : step state c = .ok (.done result, c')) :
    Iterates step state c result c'
  /-- The step asks to be run again. -/
  | again {state c state' c₁ result c'} (h : step state c = .ok (.again state', c₁))
    (rest : Iterates step state' c₁ result c') : Iterates step state c result c'

variable {step : σ → Parser (Turn σ β)}

theorem iterates_of_iterateFor {limit : Nat} {state : σ} {result : β}
    (h : iterateFor step limit state c = .ok (result, c')) : Iterates step state c result c' := by
  induction limit generalizing state c with
  | zero => cases h
  | succ limit ih =>
    rw [iterateFor, bind_ok] at h
    obtain ⟨turn, c₁, run, rest⟩ := h
    cases turn with
    | again state' => exact .again run (ih rest)
    | done result =>
      cases pure_ok.mp rest
      exact .done run

theorem iterates_of_iterate {state : σ} {result : β}
    (h : iterate step state c = .ok (result, c')) : Iterates step state c result c' :=
  iterates_of_iterateFor h

/-- A loop whose steps read tokens is never stopped by its limit. -/
theorem iterateFor_of_iterates {limit : Nat} {state : σ} {result : β}
    (h : Iterates step state c result c')
    (reads : ∀ {state d state' d₁}, d.tokens = c.tokens →
      step state d = .ok (.again state', d₁) → d.Before d₁)
    (enough : c.remaining < limit) : iterateFor step limit state c = .ok (result, c') := by
  induction h generalizing limit with
  | @done state c result c' run =>
    obtain ⟨limit, rfl⟩ : ∃ k, limit = k + 1 := ⟨limit - 1, by omega⟩
    rw [iterateFor, bind_ok]
    exact ⟨_, _, run, rfl⟩
  | @again state c state' c₁ result c' run rest ih =>
    obtain ⟨limit, rfl⟩ : ∃ k, limit = k + 1 := ⟨limit - 1, by omega⟩
    rw [iterateFor, bind_ok]
    have moved := reads rfl run
    have closer : c₁.remaining < c.remaining := by
      have := c.inBounds
      have := moved.position
      unfold Cursor.remaining
      rw [moved.tokens]
      omega
    exact ⟨_, _, run, ih (fun row => reads (row.trans moved.tokens)) (by omega)⟩

theorem iterate_of_iterates {state : σ} {result : β} (h : Iterates step state c result c')
    (reads : ∀ {state d state' d₁}, d.tokens = c.tokens →
      step state d = .ok (.again state', d₁) → d.Before d₁) :
    iterate step state c = .ok (result, c') :=
  iterateFor_of_iterates h reads (Nat.lt_succ_self _)

/-- A turn with the state and the result seen in another way. -/
def Turn.map {τ γ : Type} (f : σ → τ) (g : β → γ) : Turn σ β → Turn τ γ
  | .again state => .again (f state)
  | .done result => .done (g result)

/-- A loop that does the same steps on states seen in another way. -/
theorem iterate_eq_map {τ γ : Type} {step : σ → Parser (Turn σ β)} {step' : τ → Parser (Turn τ γ)} (f : σ → τ)
    (g : β → γ) (same : ∀ s, step' (f s) = Turn.map f g <$> step s) (s : σ) :
    iterate step' (f s) = g <$> iterate step s := by
  have limited : ∀ limit s, iterateFor step' limit (f s) = g <$> iterateFor step limit s := by
    intro limit
    induction limit with
    | zero => exact fun _ => rfl
    | succ limit ih =>
      intro s
      rw [iterateFor, iterateFor, same, map_bind, bind_map_left]
      congr 1
      funext turn
      cases turn with
      | again s' => exact ih s'
      | done x => exact (map_pure g x).symm
  funext c
  exact congrFun (limited _ s) c

/-! ## Lists -/

/-- Items that follow each other from one place to another. -/
inductive Items (item : Cursor → α → Cursor → Prop) : Cursor → List α → Cursor → Prop where
  /-- No item. -/
  | nil (c : Cursor) : Items item c [] c
  /-- An item and those behind it. -/
  | cons {c x c₁ xs c'} (first : item c x c₁) (rest : Items item c₁ xs c') :
    Items item c (x :: xs) c'

theorem Items.mono {R S : Cursor → α → Cursor → Prop} {xs : List α} (h : Items R c xs c')
    (hRS : ∀ {c x c₁}, R c x c₁ → S c x c₁) : Items S c xs c' := by
  induction h with
  | nil => exact .nil _
  | cons first _ ih => exact .cons (hRS first) ih

/-- A loop that collects items reads a row of them. -/
theorem items_of_iterates {step : List α → Parser (Turn (List α) β)}
    (item : Cursor → α → Cursor → Prop) (last : Cursor → Prop) (finish : List α → β)
    (hstep : ∀ {items c turn c₁}, step items c = .ok (turn, c₁) →
      (∃ x, turn = .again (x :: items) ∧ item c x c₁) ∨
        (turn = .done (finish items) ∧ c₁ = c ∧ last c))
    {earlier : List α} {result : β} (h : Iterates step earlier c result c') :
    ∃ xs, Items item c xs c' ∧ last c' ∧ result = finish (xs.reverse ++ earlier) := by
  induction h with
  | done run =>
    rcases hstep run with ⟨x, turn, _⟩ | ⟨turn, rfl, ends⟩
    · cases turn
    · cases turn
      exact ⟨[], .nil _, ends, rfl⟩
  | again run _ ih =>
    rcases hstep run with ⟨x, turn, first⟩ | ⟨turn, _⟩
    · cases turn
      obtain ⟨xs, rest, ends, rfl⟩ := ih
      exact ⟨x :: xs, .cons first rest, ends, by simp⟩
    · cases turn

/-- A row of items is collected by a loop. -/
theorem iterates_of_items (step : List α → Parser (Turn (List α) β))
    {item : Cursor → α → Cursor → Prop} (finish : List α → β)
    (hagain : ∀ {items c x c₁}, item c x c₁ → step items c = .ok (.again (x :: items), c₁))
    (hdone : ∀ {items}, step items c' = .ok (.done (finish items), c'))
    {xs : List α} (h : Items item c xs c') (earlier : List α) :
    Iterates step earlier c (finish (xs.reverse ++ earlier)) c' := by
  induction h generalizing earlier with
  | nil => exact .done hdone
  | cons first _ ih =>
    refine .again (hagain first) ?_
    simpa using ih hdone (_ :: earlier)

variable {item : Parser α} {close : TokenKind} {xs : List α}

/-- An item of a list that ends at a closing token. -/
abbrev ItemUntil (close : TokenKind) (item : Parser α) (c : Cursor) (x : α) (c₁ : Cursor) : Prop :=
  c.current.kind ≠ close ∧ item c = .ok (x, c₁)

/-- An item behind a comma. -/
abbrev CommaItem (item : Parser α) (c : Cursor) (x : α) (c₁ : Cursor) : Prop :=
  c.current.kind = .punctuation .comma ∧ item c.advance = .ok (x, c₁)

/-- The parser reads at least one token wherever it succeeds on the row. -/
abbrev ReadsOn (row : Array Token) (item : Parser α) : Prop :=
  ∀ {d x d₁}, d.tokens = row → item d = .ok (x, d₁) → d.Before d₁

@[simp] theorem untilStep_ok {items : List α} {r : Turn (List α) (List α) × Cursor} :
    untilStep close item items c = .ok r ↔
      (c.current.kind = close ∧ (.done items.reverse, c) = r) ∨
        (c.current.kind ≠ close ∧ ∃ x c₁, item c = .ok (x, c₁) ∧ (.again (x :: items), c₁) = r) := by
  simp [untilStep]

theorem itemsUntil_items (h : itemsUntil close item c = .ok (xs, c')) :
    Items (ItemUntil close item) c xs c' ∧ c'.current.kind = close := by
  have collected := items_of_iterates (ItemUntil close item)
    (fun c => c.current.kind = close) List.reverse ?_ (iterates_of_iterate h)
  · obtain ⟨xs, row, closes, rfl⟩ := collected
    exact ⟨by simpa using row, closes⟩
  · intro items c turn c₁ run
    rcases untilStep_ok.mp run with ⟨closes, run⟩ | ⟨other, x, _, run, turn⟩
    · cases run
      exact .inr ⟨rfl, rfl, closes⟩
    · cases turn
      exact .inl ⟨x, rfl, other, run⟩

@[simp] theorem commaStep_ok {items : List α} {r : Turn (List α) (List α) × Cursor} :
    commaStep item items c = .ok r ↔
      (c.current.kind = .punctuation .comma ∧
        ∃ x c₁, item c.advance = .ok (x, c₁) ∧ (.again (x :: items), c₁) = r) ∨
      (c.current.kind ≠ .punctuation .comma ∧ (.done items.reverse, c) = r) := by
  simp [commaStep]

theorem commaSeparatedFrom_items {first : α} (h : commaSeparatedFrom first item c = .ok (xs, c')) :
    ∃ more, xs = first :: more ∧ Items (CommaItem item) c more c' ∧
      c'.current.kind ≠ .punctuation .comma := by
  have collected := items_of_iterates (CommaItem item)
    (fun c => c.current.kind ≠ .punctuation .comma) List.reverse ?_
    (iterates_of_iterate h)
  · obtain ⟨more, row, ends, rfl⟩ := collected
    exact ⟨more, by simp, row, ends⟩
  · intro items c turn c₁ run
    rcases commaStep_ok.mp run with ⟨comma, x, _, run, turn⟩ | ⟨other, run⟩
    · cases turn
      exact .inl ⟨x, rfl, comma, run⟩
    · cases run
      exact .inr ⟨rfl, rfl, other⟩

theorem commaSeparatedFrom_of_items {first : α} {more : List α}
    (h : Items (CommaItem item) c more c') (ends : c'.current.kind ≠ .punctuation .comma)
    (reads : ReadsOn c.tokens item) :
    commaSeparatedFrom first item c = .ok (first :: more, c') := by
  have collected := iterates_of_items (commaStep item) List.reverse
    (fun next => commaStep_ok.mpr (.inl ⟨next.1, _, _, next.2, rfl⟩))
    (commaStep_ok.mpr (.inr ⟨ends, rfl⟩)) h [first]
  refine iterate_of_iterates (by simpa using collected) ?_
  intro items d items' d₁ row run
  rcases commaStep_ok.mp run with ⟨comma, x, _, run, turn⟩ | ⟨_, run⟩
  · cases turn
    have moved : d.Before d.advance := Cursor.before_advance (by simp [Token.isEnd, comma])
    exact moved.trans (reads (moved.tokens.trans row) run)
  · cases run

theorem commaSeparated_items (h : commaSeparated item c = .ok (xs, c')) :
    ∃ first c₁ more, xs = first :: more ∧ item c = .ok (first, c₁) ∧
      Items (CommaItem item) c₁ more c' ∧ c'.current.kind ≠ .punctuation .comma := by
  obtain ⟨first, c₁, run, rest⟩ := bind_ok.mp h
  obtain ⟨more, rfl, row, ends⟩ := commaSeparatedFrom_items rest
  exact ⟨first, c₁, more, rfl, run, row, ends⟩

theorem commaSeparated_of_items {first : α} {c₁ : Cursor} {more : List α}
    (run : item c = .ok (first, c₁)) (h : Items (CommaItem item) c₁ more c')
    (ends : c'.current.kind ≠ .punctuation .comma) (reads : ReadsOn c.tokens item) :
    commaSeparated item c = .ok (first :: more, c') := by
  have moved := reads rfl run
  rw [commaSeparated, bind_of_ok run]
  exact commaSeparatedFrom_of_items h ends fun row => reads (row.trans moved.tokens)

@[simp] theorem whileStep_ok {item : Parser (Option α)} {items : List α}
    {r : Turn (List α) (List α) × Cursor} :
    whileStep item items c = .ok r ↔
      (∃ x c₁, item c = .ok (some x, c₁) ∧ (.again (x :: items), c₁) = r) ∨
      (∃ c₁, item c = .ok (none, c₁) ∧ (.done items.reverse, c₁) = r) := by
  rw [whileStep, bind_ok]
  constructor
  · rintro ⟨x?, c₁, run, turn⟩
    cases x? with
    | some x => exact .inl ⟨x, c₁, run, pure_ok.mp turn⟩
    | none => exact .inr ⟨c₁, run, pure_ok.mp turn⟩
  · rintro (⟨x, c₁, run, turn⟩ | ⟨c₁, run, turn⟩)
    · exact ⟨some x, c₁, run, pure_ok.mpr turn⟩
    · exact ⟨none, c₁, run, pure_ok.mpr turn⟩

theorem itemsWhile_items {item : Parser (Option α)}
    (stays : ∀ {c c'}, item c = .ok (none, c') → c' = c)
    (h : itemsWhile item c = .ok (xs, c')) :
    Items (fun c x c₁ => item c = .ok (some x, c₁)) c xs c' ∧ item c' = .ok (none, c') := by
  have collected := items_of_iterates (fun c x c₁ => item c = .ok (some x, c₁))
    (fun c => item c = .ok (none, c)) List.reverse ?_ (iterates_of_iterate h)
  · obtain ⟨xs, row, ends, rfl⟩ := collected
    exact ⟨by simpa using row, ends⟩
  · intro items c turn c₁ run
    rcases whileStep_ok.mp run with ⟨x, _, run, turn⟩ | ⟨_, run, turn⟩
    · cases turn
      exact .inl ⟨x, rfl, run⟩
    · cases turn
      cases stays run
      exact .inr ⟨rfl, rfl, run⟩

/-! ## Names and semicolons -/

/-- A part of a dotted name behind its point. -/
abbrev PartItem (c : Cursor) (x : Ident) (c₁ : Cursor) : Prop :=
  c.current.kind = .punctuation .dot ∧ memberName c.advance = .ok (x, c₁)

@[simp] theorem partStep_ok {parts : List Ident} {r : Turn (List Ident) (List Ident) × Cursor} :
    partStep parts c = .ok r ↔
      (c.current.kind = .punctuation .dot ∧
        ∃ x c₁, memberName c.advance = .ok (x, c₁) ∧ (.again (x :: parts), c₁) = r) ∨
      (c.current.kind ≠ .punctuation .dot ∧ (.done parts.reverse, c) = r) := by
  simp [partStep]

theorem isEnd_of_writtenWord? {t : Token} {text : String} (h : t.writtenWord? = some text) :
    t.isEnd = false := by
  unfold Token.writtenWord? at h
  unfold Token.isEnd
  cases hk : t.kind <;> simp [hk, TokenKind.word?] at h ⊢

theorem memberName_before {x : Ident} (h : memberName c = .ok (x, c')) : c.Before c' := by
  obtain ⟨text, word, run⟩ := memberName_ok.mp h
  cases run
  exact Cursor.before_advance (isEnd_of_writtenWord? word)

theorem identifier_before {x : Ident} (h : identifier c = .ok (x, c')) : c.Before c' := by
  obtain ⟨text, name, run⟩ := identifier_ok.mp h
  cases run
  exact Cursor.before_advance (by simp [Token.isEnd, name])

theorem parts_ok {first : Ident} {parts : List Ident} :
    iterate partStep [first] c = .ok (parts, c') ↔
      ∃ more, parts = first :: more ∧ Items PartItem c more c' ∧
        c'.current.kind ≠ .punctuation .dot := by
  constructor
  · intro loop
    have collected := items_of_iterates PartItem
      (fun c => c.current.kind ≠ .punctuation .dot) List.reverse ?_
      (iterates_of_iterate loop)
    · obtain ⟨more, row, ends, rfl⟩ := collected
      exact ⟨more, by simp, row, ends⟩
    · intro parts c turn c₁ run
      rcases partStep_ok.mp run with ⟨dot, x, _, run, turn⟩ | ⟨other, run⟩
      · cases turn
        exact .inl ⟨x, rfl, dot, run⟩
      · cases run
        exact .inr ⟨rfl, rfl, other⟩
  · rintro ⟨more, rfl, row, ends⟩
    have collected := iterates_of_items partStep List.reverse
      (fun next => partStep_ok.mpr (.inl ⟨next.1, _, _, next.2, rfl⟩))
      (partStep_ok.mpr (.inr ⟨ends, rfl⟩)) row [first]
    refine iterate_of_iterates (by simpa using collected) ?_
    intro parts d parts' d₁ _ run
    rcases partStep_ok.mp run with ⟨dot, x, _, run, turn⟩ | ⟨_, run⟩
    · cases turn
      have moved : d.Before d.advance := Cursor.before_advance (by simp [Token.isEnd, dot])
      exact moved.trans (memberName_before run)
    · cases run

theorem qualifiedName_ok {r : QualifiedName × Cursor} :
    qualifiedName c = .ok r ↔
      ∃ first c₁ parts c₂, identifier c = .ok (first, c₁) ∧
        iterate partStep [first] c₁ = .ok (parts, c₂) ∧
        (⟨c₂.spanFrom c.current.span, parts⟩, c₂) = r := by
  simp [qualifiedName]

/-- A semicolon. -/
abbrev SemicolonItem (c : Cursor) (_ : Unit) (c₁ : Cursor) : Prop :=
  c.current.kind = .punctuation .semicolon ∧ c.advance = c₁

@[simp] theorem semicolonStep_ok {count : Nat} {r : Turn Nat Nat × Cursor} :
    semicolonStep count c = .ok r ↔
      (c.current.kind = .punctuation .semicolon ∧ (.again (count + 1), c.advance) = r) ∨
      (c.current.kind ≠ .punctuation .semicolon ∧ (.done count, c) = r) := by
  simp [semicolonStep]

theorem semicolons_ok {n : Nat} :
    semicolons c = .ok (n, c') ↔
      Items SemicolonItem c (List.replicate n ()) c' ∧
        c'.current.kind ≠ .punctuation .semicolon := by
  constructor
  · intro h
    have counted : ∀ {count n : Nat} {c c'}, Iterates semicolonStep count c n c' →
        ∃ more, n = count + more ∧ Items SemicolonItem c (List.replicate more ()) c' ∧
          c'.current.kind ≠ .punctuation .semicolon := by
      intro count n c c' loop
      induction loop with
      | done run =>
        rcases semicolonStep_ok.mp run with ⟨_, turn⟩ | ⟨other, turn⟩
        · cases turn
        · cases turn
          exact ⟨0, rfl, .nil _, other⟩
      | again run _ ih =>
        rcases semicolonStep_ok.mp run with ⟨semicolon, turn⟩ | ⟨_, turn⟩
        · cases turn
          obtain ⟨more, rfl, row, ends⟩ := ih
          exact ⟨more + 1, by omega, .cons ⟨semicolon, rfl⟩ row, ends⟩
        · cases turn
    obtain ⟨more, rfl, row, ends⟩ := counted (iterates_of_iterate h)
    exact ⟨by simpa using row, ends⟩
  · rintro ⟨row, ends⟩
    have loop : ∀ {n : Nat} {c}, Items SemicolonItem c (List.replicate n ()) c' →
        ∀ count, Iterates semicolonStep count c (count + n) c' := by
      intro n
      induction n with
      | zero =>
        rintro c ⟨⟩ count
        exact .done (semicolonStep_ok.mpr (.inr ⟨ends, rfl⟩))
      | succ n ih =>
        rintro c (_ | ⟨⟨semicolon, rfl⟩, row⟩) count
        refine .again (semicolonStep_ok.mpr (.inl ⟨semicolon, rfl⟩)) ?_
        rw [Nat.add_comm n 1, ← Nat.add_assoc]
        exact ih row (count + 1)
    refine iterate_of_iterates (by simpa using loop row 0) ?_
    intro count d count' d₁ _ run
    rcases semicolonStep_ok.mp run with ⟨semicolon, turn⟩ | ⟨_, turn⟩
    · cases turn
      exact Cursor.before_advance (by simp [Token.isEnd, semicolon])
    · cases turn

end Parser

end Apex
