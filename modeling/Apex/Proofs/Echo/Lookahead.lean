import Apex.Proofs.Blur.Headers
import Apex.Grammar.Statement
import Apex.Proofs.Echo.Parsers
import Apex.Proofs.Spans.Types

/-!
# What lies ahead on rows that go on alike

All that the grammar asks of the tokens ahead, it asks of their shapes: whether a modifier, a type,
a cast or a key follows is answered alike on rows that go on alike.
-/

namespace Apex

open Grammar Apex.Parser

/-! ## Single questions -/

namespace Cursor.Alike

variable {c d : Cursor}

theorem refl (c : Cursor) : c.Alike c := by
  cases h : c.current.isEnd with
  | true => exact .last h h
  | false =>
    have moved := (Cursor.before_advance h).position
    have bound := c.advance.inBounds
    have tokens := c.advance_tokens
    exact .next rfl h (refl c.advance)
termination_by c.tokens.size - c.position
decreasing_by
  rw [tokens] at bound
  rw [tokens]
  omega

theorem peek_one (h : c.Alike d) (inside : c.current.isEnd = false)
    (other : c.current.kind.opensValue = false) :
    (c.peek 1).kind.shape = (d.peek 1).kind.shape := by
  have inside' : d.current.isEnd = false := by rw [← Token.isEnd_eq_of_shape_eq h.shape, inside]
  rw [Cursor.peek_one inside, Cursor.peek_one inside']
  exact (h.advance_of_not_opens inside other).shape

end Cursor.Alike

/-- A token with a property that the end does not have is not the end. -/
theorem Token.isEnd_of_holds {t : Token} (holds : TokenKind → Bool) (h : holds t.kind = true)
    (not : holds .endOfFile = false) : t.isEnd = false := by
  cases ends : t.isEnd with
  | false => rfl
  | true =>
    rw [t.kind_of_isEnd ends, not] at h
    cases h

namespace Edge.Meets

variable {e : Edge} {c d : Cursor}

theorem refl (e : Edge) (c : Cursor) : e.Meets c c := by
  cases e with
  | value => exact .inl (Cursor.Alike.refl c)
  | loose => exact Cursor.Alike.refl c
  | tight => exact ⟨Cursor.Alike.refl c, rfl⟩

theorem symm (h : Edge.value.Meets c d) : Edge.value.Meets d c := by
  rcases h with alike | numbers
  · exact .inl alike.symm
  · exact .inr ⟨numbers.2, numbers.1⟩

/-- Where no number can stand the rows go on alike. -/
theorem alike (h : Edge.value.Meets c d) (other : c.current.kind.startsNumber = false) :
    c.Alike d := by
  rcases h with alike | numbers
  · exact alike
  · rw [numbers.1] at other
    cases other

theorem keyword?_eq (h : e.Meets c d) : c.current.kind.keyword? = d.current.kind.keyword? := by
  have known : ∀ {k : TokenKind} {kw : Keyword}, k.keyword? = some kw ↔ k = .keyword kw := by
    intro k kw
    cases k <;> simp [TokenKind.keyword?]
  refine Option.ext fun kw => ?_
  rw [known, known]
  exact h.kind_iff rfl rfl

theorem isName_eq (h : e.Meets c d) : c.current.kind.isName = d.current.kind.isName := by
  rcases h.value with alike | ⟨number, number'⟩
  · exact TokenKind.isName_eq_of_shape_eq alike.shape
  · cases hc : c.current.kind <;> cases hd : d.current.kind <;>
      simp_all [TokenKind.startsNumber, TokenKind.isName]

/-- Whether a token and a second one lie ahead, the first of which no value can follow. -/
theorem pair_iff (h : e.Meets c d) (first : TokenKind) (second : TokenKind → Bool)
    (fixed : first.isFixed = true) (number : first.startsNumber = false)
    (inside : first ≠ .endOfFile) (other : first.opensValue = false)
    (hsecond : ∀ {j k : TokenKind}, j.shape = k.shape → second j = second k) :
    (c.current.kind = first ∧ second (c.peek 1).kind = true) ↔
      (d.current.kind = first ∧ second (d.peek 1).kind = true) := by
  have kinds := h.kind_iff fixed number
  rw [← kinds]
  refine and_congr_right fun hc => ?_
  have alike := h.value.alike (by rw [hc]; exact number)
  rw [hsecond (alike.peek_one (isEnd_of_kind hc inside) (by rw [hc]; exact other))]

theorem segmentAhead_iff (h : e.Meets c d) : SegmentAhead c ↔ SegmentAhead d :=
  h.pair_iff _ _ rfl rfl (by simp) rfl TokenKind.isName_eq_of_shape_eq

theorem bracketsAhead_iff (h : e.Meets c d) : BracketsAhead c ↔ BracketsAhead d := by
  have := h.pair_iff (.punctuation .openBracket)
    (fun k => decide (k = .punctuation .closeBracket)) rfl rfl (by simp) rfl ?_
  · simpa [BracketsAhead] using this
  · intro j k shape
    have : j = .punctuation .closeBracket ↔ k = .punctuation .closeBracket :=
      ⟨fun hj => TokenKind.eq_of_shape_eq (hj ▸ shape.symm) rfl,
        fun hk => TokenKind.eq_of_shape_eq (hk ▸ shape) rfl⟩
    simp [this]

theorem keyIsAhead_eq (h : e.Meets c d) : keyIsAhead c = keyIsAhead d := by
  have names := h.isName_eq
  unfold keyIsAhead
  rw [← names]
  cases hc : c.current.kind.isName with
  | false => rfl
  | true =>
    have number : c.current.kind.startsNumber = false := by
      cases hk : c.current.kind <;> simp_all [TokenKind.isName, TokenKind.startsNumber]
    have other : c.current.kind.opensValue = false := by
      cases hk : c.current.kind <;> simp_all [TokenKind.isName, TokenKind.opensValue]
    have alike := h.value.alike number
    have shape := alike.peek_one (Token.isEnd_of_holds _ hc rfl) other
    rw [Bool.eq_iff_iff, Bool.true_and, Bool.true_and, beq_iff_eq, beq_iff_eq]
    exact ⟨fun hj => TokenKind.eq_of_shape_eq (hj ▸ shape.symm) rfl,
      fun hk => TokenKind.eq_of_shape_eq (hk ▸ shape) rfl⟩

theorem isOneOf_eq (h : e.Meets c d) (marks : List Punctuation) :
    isOneOf marks c.current = isOneOf marks d.current := by
  unfold isOneOf
  congr 1
  funext p
  rw [Bool.eq_iff_iff, beq_iff_eq, beq_iff_eq]
  exact h.kind_iff rfl rfl

end Edge.Meets

/-! ## Modifiers -/

namespace Grammar

variable {c d : Cursor} {e : Edge}

/-- The modifier that a token begins, given whether `sharing` follows. -/
def modifierOf (sharing : Bool) (kind : TokenKind) : Option (Modifier × Nat) :=
  if sharing && kind == .keyword .kwWith then some (.withSharing, 2)
  else if sharing && kind.spells .kwWithout then some (.withoutSharing, 2)
  else if sharing && kind.spells .kwInherited then some (.inheritedSharing, 2)
  else
    match kind with
    | .keyword k => (Modifier.ofKeyword? k).map fun m => (m, 1)
    | _ => none

theorem modifierAhead?_eq (c : Cursor) :
    modifierAhead? c = modifierOf ((c.peek 1).kind.spells .kwSharing) c.current.kind := rfl

theorem modifierOf_eq {sharing sharing' : Bool} {j k : TokenKind} (shape : j.shape = k.shape)
    (same : j.word?.isSome = true → sharing = sharing') :
    modifierOf sharing j = modifierOf sharing' k := by
  have without := TokenKind.spells_eq_of_shape_eq shape .kwWithout
  have inherited := TokenKind.spells_eq_of_shape_eq shape .kwInherited
  have names := TokenKind.isName_eq_of_shape_eq shape
  cases hj : j with
  | keyword kw =>
    have hk : k = .keyword kw := TokenKind.eq_of_shape_eq (by rw [← shape, hj]) rfl
    have := same (by rw [hj]; rfl)
    rw [hk, this]
  | name v =>
    have := same (by rw [hj]; rfl)
    subst this
    cases hk : k with
    | name w =>
      rw [hj, hk] at without inherited
      simp [modifierOf, without, inherited]
    | _ => simp [hj, hk, TokenKind.isName] at names
  | _ =>
    cases hk : k with
    | name w => simp [hj, hk, TokenKind.isName] at names
    | keyword kw =>
      have : j = .keyword kw := TokenKind.eq_of_shape_eq (by rw [shape, hk]) rfl
      simp [hj] at this
    | _ => simp [modifierOf, TokenKind.spells]

theorem modifierOf_number {sharing : Bool} {k : TokenKind} (h : k.startsNumber = true) :
    modifierOf sharing k = none := by
  cases k with
  | integer | long | operator => simp [modifierOf, TokenKind.spells]
  | _ => cases h

end Grammar

theorem Edge.Meets.modifierAhead?_eq {e : Edge} {c d : Cursor} (h : e.Meets c d) :
    modifierAhead? c = modifierAhead? d := by
  rw [Grammar.modifierAhead?_eq, Grammar.modifierAhead?_eq]
  rcases h.value with alike | ⟨number, number'⟩
  · refine modifierOf_eq alike.shape fun word => ?_
    refine TokenKind.spells_eq_of_shape_eq (alike.peek_one ?_ ?_) _
    · cases hk : c.current.kind <;> simp_all [TokenKind.word?, Token.isEnd]
    · cases hk : c.current.kind <;> simp_all [TokenKind.word?, TokenKind.opensValue]
  · rw [modifierOf_number number, modifierOf_number number']

/-! ## Looking for a variable -/

namespace Parser

variable {α β σ γ δ ε : Type}

/-- Wherever `p` succeeds, `q` succeeds on rows that go on alike, and both rows go on alike behind
what was read. -/
def Mirrors (p q : Parser α) (view : α → γ) : Prop :=
  ∀ ⦃c d x c'⦄, Edge.value.Meets c d → p c = .ok (x, c') →
    c.Upto c' ∧ ∃ y d', q d = .ok (y, d') ∧ d.Upto d' ∧ Edge.value.Meets c' d' ∧ view x = view y

namespace Mirrors

variable {p q : Parser α} {view : α → γ}

theorem pure {x y : α} (same : view x = view y) : Mirrors (pure x) (pure y) view := by
  intro c d z c' meets run
  cases pure_ok.mp run
  exact ⟨.refl _, y, d, rfl, .refl _, meets, same⟩

theorem fail {expected : List String} : Mirrors (fail expected) q view :=
  fun _ _ _ _ _ run => (fail_ok.mp run).elim

theorem bind {f g : α → Parser β} {view' : β → δ} (h : Mirrors p q view)
    (rest : ∀ {x y}, view x = view y → Mirrors (f x) (g y) view') :
    Mirrors (p >>= f) (q >>= g) view' := by
  intro c d z c' meets run
  obtain ⟨x, c₁, run, run'⟩ := bind_ok.mp run
  obtain ⟨moved, y, d₁, runD, movedD, meets, same⟩ := h meets run
  obtain ⟨moved', z', d', runD', movedD', meets, same'⟩ := rest same meets run'
  exact ⟨moved.trans moved', z', d', bind_ok.mpr ⟨y, d₁, runD, runD'⟩, movedD.trans movedD',
    meets, same'⟩

theorem here : Mirrors here here fun _ => () :=
  fun _ d _ _ meets run => by
    cases run
    exact ⟨.refl _, d.current.span, d, rfl, .refl _, meets, rfl⟩

theorem spanFrom {start start' : Span} : Mirrors (spanFrom start) (spanFrom start') fun _ => () := by
  intro c d x c' meets run
  rw [spanFrom_eq] at run
  cases run
  exact ⟨.refl _, d.spanFrom start', d, spanFrom_eq start', .refl _, meets, rfl⟩

theorem accept {k : TokenKind} (fixed : k.isFixed = true) (number : k.startsNumber = false)
    (inside : k ≠ .endOfFile) : Mirrors (accept k) (accept k) id := by
  intro c d x c' meets run
  have kinds := meets.kind_iff fixed number
  by_cases hc : c.current.kind = k
  · rw [accept_eq_true hc] at run
    cases run
    have alike := meets.alike (by rw [hc]; exact number)
    exact ⟨Cursor.upto_advance _, true, d.advance, accept_eq_true (kinds.mp hc),
      Cursor.upto_advance _, alike.advance (isEnd_of_kind hc inside), rfl⟩
  · rw [accept_eq_false hc] at run
    cases run
    exact ⟨.refl _, false, d, accept_eq_false (mt kinds.mpr hc), .refl _, meets, rfl⟩

theorem expect {k : TokenKind} (fixed : k.isFixed = true) (number : k.startsNumber = false)
    (inside : k ≠ .endOfFile) : Mirrors (expect k) (expect k) fun _ => () := by
  intro c d x c' meets run
  obtain ⟨hc, run⟩ := expect_ok.mp run
  cases run
  have alike := meets.alike (by rw [hc]; exact number)
  exact ⟨Cursor.upto_advance _, d.current.span, d.advance,
    expect_ok.mpr ⟨(meets.kind_iff fixed number).mp hc, rfl⟩, Cursor.upto_advance _,
    alike.advance (isEnd_of_kind hc inside), rfl⟩

theorem identifier : Mirrors identifier identifier fun _ => () := by
  intro c d x c' meets run
  obtain ⟨text, name, run⟩ := identifier_ok.mp run
  cases run
  have names := meets.isName_eq
  have alike := meets.alike (by rw [name]; rfl)
  rw [name] at names
  have name' : ∃ w, d.current.kind = .name w := by
    cases hd : d.current.kind <;> simp_all [TokenKind.isName]
  obtain ⟨w, name'⟩ := name'
  exact ⟨Cursor.upto_advance _, ⟨w, d.current.span⟩, d.advance,
    identifier_ok.mpr ⟨w, name', rfl⟩, Cursor.upto_advance _,
    alike.advance (isEnd_of_kind name (by simp)), rfl⟩

/-- A loop whose steps read tokens whenever they ask to be run again. -/
theorem iterate {step step' : σ → Parser (Turn σ β)} {view : β → ε} (stateView : σ → δ)
    (h : ∀ {s t}, stateView s = stateView t →
      Mirrors (step s) (step' t) (Turn.map stateView view))
    (reads : ∀ {t d t' d₁}, step' t d = .ok (.again t', d₁) → d.Before d₁)
    {s t : σ} (same : stateView s = stateView t) :
    Mirrors (iterate step s) (iterate step' t) view := by
  intro c d x c' meets run
  suffices loop : ∀ {d : Cursor} {t : σ}, Edge.value.Meets c d → stateView s = stateView t →
      c.Upto c' ∧ ∀ limit, d.remaining < limit → ∃ y d', iterateFor step' limit t d = .ok (y, d') ∧
        d.Upto d' ∧ Edge.value.Meets c' d' ∧ view x = view y by
    obtain ⟨moved, goes⟩ := loop meets same
    exact ⟨moved, goes _ (Nat.lt_succ_self _)⟩
  have steps := iterates_of_iterate run
  clear run same meets
  induction steps with
  | done run =>
    intro d t meets same
    obtain ⟨moved, turn, d', runD, movedD, meets, same⟩ := h same meets run
    refine ⟨moved, fun limit enough => ?_⟩
    obtain ⟨limit, rfl⟩ : ∃ k, limit = k + 1 := ⟨limit - 1, by omega⟩
    cases turn with
    | again t' => cases same
    | done y =>
      refine ⟨y, d', ?_, movedD, meets, Turn.done.inj same⟩
      rw [iterateFor, bind_ok]
      exact ⟨_, _, runD, rfl⟩
  | again run _ ih =>
    intro d t meets same
    obtain ⟨moved, turn, d₁, runD, movedD, meets, same⟩ := h same meets run
    cases turn with
    | done y => cases same
    | again t' =>
      obtain ⟨moved', goes⟩ := ih meets (Turn.again.inj same)
      refine ⟨moved.trans moved', fun limit enough => ?_⟩
      obtain ⟨limit, rfl⟩ : ∃ k, limit = k + 1 := ⟨limit - 1, by omega⟩
      have before := reads runD
      have closer : d₁.remaining < d.remaining := by
        have := d.inBounds
        have := before.position
        unfold Cursor.remaining
        rw [before.tokens]
        omega
      obtain ⟨y, d', loop, movedD', meets, same⟩ := goes limit (by omega)
      refine ⟨y, d', ?_, movedD.trans movedD', meets, same⟩
      rw [iterateFor, bind_ok]
      exact ⟨_, _, runD, loop⟩

/-- What a mirrored parser reads lies behind the place where it begins. -/
theorem upto (h : Mirrors p p view) {c c' : Cursor} {x : α} (run : p c = .ok (x, c')) :
    c.Upto c' :=
  (h (.inl (.refl c)) run).1

theorem commaSeparated (h : Mirrors p p view) :
    Mirrors (commaSeparated p) (commaSeparated p) (List.map view) := by
  refine bind h fun {x y} same => ?_
  refine iterate (List.map view) (s := [x]) (t := [y]) (fun {s t} same => ?_)
    (fun {t d t' d₁} run => ?_) (by simp [same])
  · refine bind (accept rfl rfl (by simp)) fun {found found'} agree => ?_
    obtain rfl : found = found' := agree
    cases found with
    | true => exact bind h fun samex => pure (by simp [Turn.map, same, samex])
    | false => exact pure (by simp only [Turn.map, List.map_reverse, same])
  · rcases commaStep_ok.mp run with ⟨comma, x, _, run, turn⟩ | ⟨_, run⟩
    · cases turn
      exact (before_of_kind comma (by simp)).trans_upto (h.upto run)
    · cases run

end Mirrors

end Parser

namespace Grammar

variable {argument : Parser TypeRef}

theorem typeSegments_mirrors : Mirrors typeSegments typeSegments fun _ => () := by
  refine .bind .identifier fun {x y} _ => ?_
  refine .iterate (fun _ => ()) (fun {s t} _ => ?_) (fun {t d t' d₁} run => ?_) rfl
  · intro c d turn c' meets run
    have ahead := meets.segmentAhead_iff
    rcases segmentStep_ok.mp run with ⟨found, x, _, run, turn⟩ | ⟨other, turn⟩
    · cases turn
      have alike := meets.alike (by rw [found.1]; rfl)
      have step : Edge.value.Meets c.advance d.advance :=
        alike.advance (isEnd_of_kind found.1 (by simp))
      obtain ⟨moved, y, d', runD, movedD, meets, _⟩ := Mirrors.identifier step run
      exact ⟨(Cursor.upto_advance c).trans moved, _, d',
        segmentStep_ok.mpr (.inl ⟨ahead.mp found, y, d', runD, rfl⟩),
        (Cursor.upto_advance d).trans movedD, meets, rfl⟩
    · cases turn
      exact ⟨.refl _, _, d, segmentStep_ok.mpr (.inr ⟨mt ahead.mpr other, rfl⟩), .refl _, meets,
        rfl⟩
  · rcases segmentStep_ok.mp run with ⟨found, x, _, run, turn⟩ | ⟨_, turn⟩
    · cases turn
      exact (before_of_kind found.1 (by simp)).trans (identifier_before run)
    · cases turn

theorem typeArguments_mirrors (h : Mirrors argument argument fun _ => ()) :
    Mirrors (typeArguments argument) (typeArguments argument) fun _ => () := by
  refine .bind (.accept rfl rfl (by simp)) fun {opened opened'} agree => ?_
  obtain rfl : opened = opened' := agree
  cases opened with
  | false => exact .pure rfl
  | true =>
    refine .bind h.commaSeparated fun _ => .bind (.accept rfl rfl (by simp)) fun {closed closed'} agree => ?_
    obtain rfl : closed = closed' := agree
    cases closed with
    | true => exact .pure rfl
    | false => exact .fail

theorem arrayBrackets_mirrors : Mirrors arrayBrackets arrayBrackets fun _ => () := by
  refine .iterate (fun _ => ()) (fun {s t} _ => ?_) (fun {t d t' d₁} run => ?_) rfl
  · intro c d turn c' meets run
    have ahead := meets.bracketsAhead_iff
    rcases bracketsStep_ok.mp run with ⟨found, turn⟩ | ⟨other, turn⟩
    · cases turn
      have inside := isEnd_of_kind found.1 (by simp)
      have alike := (meets.alike (by rw [found.1]; rfl)).advance_of_not_opens inside
        (by rw [found.1]; rfl)
      have closes : c.advance.current.kind = .punctuation .closeBracket := by
        rw [← Cursor.peek_one inside, found.2]
      have upto := fun b : Cursor => (Cursor.upto_advance b).trans (Cursor.upto_advance b.advance)
      exact ⟨upto c, _, d.advance.advance, bracketsStep_ok.mpr (.inl ⟨ahead.mp found, rfl⟩), upto d,
        alike.advance (isEnd_of_kind closes (by simp)), rfl⟩
    · cases turn
      exact ⟨.refl _, _, d, bracketsStep_ok.mpr (.inr ⟨mt ahead.mpr other, rfl⟩), .refl _, meets,
        rfl⟩
  · rcases bracketsStep_ok.mp run with ⟨found, turn⟩ | ⟨_, turn⟩
    · cases turn
      exact (before_of_kind found.1 (by simp)).trans_upto (Cursor.upto_advance _)
    · cases turn

theorem elementType_mirrors (h : Mirrors argument argument fun _ => ()) :
    Mirrors (elementType argument) (elementType argument) fun _ => () := by
  refine .bind .here fun _ => .bind typeSegments_mirrors fun _ => ?_
  exact .bind (typeArguments_mirrors h) fun _ => .bind .spanFrom fun _ => .pure rfl

theorem typeRef_mirrors (h : Mirrors argument argument fun _ => ()) :
    Mirrors (typeRef argument) (typeRef argument) fun _ => () := by
  refine .bind .here fun _ => .bind (elementType_mirrors h) fun _ => ?_
  exact .bind arrayBrackets_mirrors fun _ => .bind .spanFrom fun _ => .pure rfl

theorem advances_mirror {c d : Cursor} {m : Modifier} {n : Nat} (meets : Edge.value.Meets c d)
    (h : modifierAhead? c = some (m, n)) :
    Edge.value.Meets (c.advances n) (d.advances n) := by
  have known : c.current.isEnd = false ∧ c.current.kind.startsNumber = false ∧
      c.current.kind.opensValue = false := by
    rw [modifierAhead?_eq] at h
    unfold Token.isEnd
    cases hk : c.current.kind with
    | keyword | name => exact ⟨rfl, rfl, rfl⟩
    | _ => simp [hk, modifierOf, TokenKind.spells] at h
  obtain ⟨inside, number, other⟩ := known
  have alike := (meets.alike number).advance_of_not_opens inside other
  rw [modifierAhead?_eq, Cursor.peek_one inside] at h
  have count : n = 1 ∨ (n = 2 ∧ c.advance.current.kind.spells .kwSharing = true) := by
    unfold modifierOf at h
    cases sharing : c.advance.current.kind.spells .kwSharing with
    | true =>
      split at h
      · cases h
        exact .inr ⟨rfl, rfl⟩
      split at h
      · cases h
        exact .inr ⟨rfl, rfl⟩
      split at h
      · cases h
        exact .inr ⟨rfl, rfl⟩
      split at h
      · obtain ⟨_, _, h⟩ := Option.map_eq_some_iff.mp h
        cases h
        exact .inl rfl
      · cases h
    | false =>
      simp only [sharing, Bool.false_and, Bool.false_eq_true, if_false] at h
      split at h
      · obtain ⟨_, _, h⟩ := Option.map_eq_some_iff.mp h
        cases h
        exact .inl rfl
      · cases h
  rcases count with rfl | ⟨rfl, sharing⟩
  · exact .inl alike
  · exact alike.advance (Token.isEnd_of_holds (·.spells .kwSharing) sharing rfl)

theorem modifier?_mirrors : Mirrors modifier? modifier? (Option.map Spanned.value) := by
  intro c d m? c' meets run
  have ahead := meets.modifierAhead?_eq
  rcases modifier?_ok.mp run with ⟨found, hm, turn⟩ | ⟨none, other, turn⟩
  · cases turn
    exact ⟨advances_upto c _, _, d.advances found.2,
      modifier?_ok.mpr (.inl ⟨found, by rw [← ahead, hm], rfl⟩), advances_upto d _,
      advances_mirror meets hm, rfl⟩
  · cases turn
    have other' := mt (meets.kind_iff rfl rfl).mpr other
    exact ⟨.refl _, _, d, modifier?_ok.mpr (.inr ⟨by rw [← ahead, none], other', rfl⟩), .refl _,
      meets, rfl⟩

theorem modifier?_before {c c₁ : Cursor} {m : Spanned Modifier}
    (run : modifier? c = .ok (some m, c₁)) : c.Before c₁ := by
  rcases modifier?_ok.mp run with ⟨found, hm, turn⟩ | ⟨_, _, turn⟩
  · cases turn
    obtain ⟨inside, more⟩ := modifierAhead?_inside hm
    exact Cursor.before_advances inside (by omega)
  · cases turn

theorem any_value_eq {xs ys : List (Spanned Modifier)} {x y : Spanned Modifier}
    (same : xs.map Spanned.value = ys.map Spanned.value) (head : x.value = y.value) :
    xs.any (·.value == x.value) = ys.any (·.value == y.value) := by
  have mapped : ∀ (m : Modifier) (zs : List (Spanned Modifier)),
      zs.any (·.value == m) = (zs.map Spanned.value).any (· == m) := by
    intro m zs
    rw [List.any_map]
    rfl
  rw [mapped, mapped, same, head]

theorem modifiers_mirrors : Mirrors modifiers modifiers fun _ => () := by
  refine .iterate (List.map Spanned.value) (fun {s t} same => ?_) (fun {t d t' d₁} run => ?_) rfl
  · refine .bind modifier?_mirrors fun {x y} samex => ?_
    cases x with
    | none =>
      cases y with
      | some y => cases samex
      | none => exact .pure rfl
    | some x =>
      cases y with
      | none => cases samex
      | some y =>
        have samex : x.value = y.value := Option.some.inj samex
        have any := any_value_eq same samex
        intro c d turn c' meets run
        obtain ⟨fresh, run⟩ := checkFresh_bind_ok.mp run
        cases pure_ok.mp run
        refine ⟨.refl _, _, d, checkFresh_bind_ok.mpr ⟨by rw [← any, fresh], rfl⟩, .refl _, meets, ?_⟩
        simp only [Turn.map, List.map_cons, same, samex]
  · rcases modifierStep_ok.mp run with ⟨m, _, some, _, turn⟩ | ⟨_, _, turn⟩
    · cases turn
      exact modifier?_before some
    · cases turn

/-! ## Looking for a cast -/

/-- The kinds of two rows have the same shapes, to the end of the rows or to a value that has a
sign in one of them only. -/
inductive KindsAlike : List TokenKind → List TokenKind → Prop where
  | nil : KindsAlike [] []
  | ended {l l'} : KindsAlike (.endOfFile :: l) (.endOfFile :: l')
  | cons {j k l l'} (shape : j.shape = k.shape) (rest : KindsAlike l l') :
    KindsAlike (j :: l) (k :: l')
  | opening {k m n l l'} (opens : k.opensValue = true) (number : m.startsNumber = true)
    (number' : n.startsNumber = true) : KindsAlike (k :: m :: l) (k :: n :: l')

namespace KindsAlike

variable {k : TokenKind} {l l' : List TokenKind}

theorem symm (h : KindsAlike l l') : KindsAlike l' l := by
  induction h with
  | nil => exact .nil
  | ended => exact .ended
  | cons shape _ ih => exact .cons shape.symm ih
  | opening opens number number' => exact .opening opens number' number

theorem fixed (h : KindsAlike (k :: l) l') (fixed : k.isFixed = true)
    (other : k.opensValue = false) (inside : k ≠ .endOfFile) :
    ∃ m, l' = k :: m ∧ KindsAlike l m := by
  cases h with
  | ended => exact absurd rfl inside
  | cons shape rest =>
    obtain rfl := TokenKind.eq_of_shape_eq shape.symm fixed
    exact ⟨_, rfl, rest⟩
  | opening opens _ _ => rw [other] at opens; cases opens

theorem name {w : String} (h : KindsAlike (.name w :: l) l') :
    ∃ v m, l' = .name v :: m ∧ KindsAlike l m := by
  cases h with
  | cons shape rest =>
    rename_i j m
    have names := TokenKind.isName_eq_of_shape_eq shape
    cases j <;> first | exact ⟨_, _, rfl, rest⟩ | cases names
  | opening opens _ _ => cases opens

theorem comma (h : KindsAlike (.punctuation .comma :: l) l') :
    ∃ m, l' = .punctuation .comma :: m ∧
      (KindsAlike l m ∨ ∃ i j n n', l = i :: n ∧ m = j :: n' ∧ i.startsNumber = true ∧
        j.startsNumber = true) := by
  cases h with
  | cons shape rest =>
    obtain rfl := TokenKind.eq_of_shape_eq shape.symm rfl
    exact ⟨_, rfl, .inl rest⟩
  | opening _ number number' => exact ⟨_, rfl, .inr ⟨_, _, _, _, rfl, rfl, number, number'⟩⟩

end KindsAlike

theorem dropSegments_alike {l l' : List TokenKind} (h : KindsAlike l l') :
    KindsAlike (dropSegments l) (dropSegments l') := by
  fun_induction dropSegments l generalizing l' with
  | case1 w l ih =>
    obtain ⟨m, rfl, behind⟩ := h.fixed rfl rfl (by simp)
    obtain ⟨v, n, rfl, rest⟩ := behind.name
    simpa only [dropSegments] using ih rest
  | case2 l other =>
    suffices same : dropSegments l' = l' by rwa [same]
    unfold dropSegments
    split
    · obtain ⟨m, rfl, behind⟩ := h.symm.fixed rfl rfl (by simp)
      obtain ⟨v, n, rfl, _⟩ := behind.name
      exact (other v n rfl).elim
    · rfl

theorem dropBrackets_alike {l l' : List TokenKind} (h : KindsAlike l l') :
    KindsAlike (dropBrackets l) (dropBrackets l') := by
  fun_induction dropBrackets l generalizing l' with
  | case1 l ih =>
    obtain ⟨m, rfl, behind⟩ := h.fixed rfl rfl (by simp)
    obtain ⟨n, rfl, rest⟩ := behind.fixed rfl rfl (by simp)
    simpa only [dropBrackets] using ih rest
  | case2 l other =>
    suffices same : dropBrackets l' = l' by rwa [same]
    unfold dropBrackets
    split
    · obtain ⟨m, rfl, behind⟩ := h.symm.fixed rfl rfl (by simp)
      obtain ⟨n, rfl, _⟩ := behind.fixed rfl rfl (by simp)
      exact (other n rfl).elim
    · rfl

/-- What follows a type in one row follows a type in the other. -/
theorem dropType_alike (limit : Nat) :
    (∀ {l l' r}, KindsAlike l l' → dropType limit l = some r →
      ∃ r', dropType limit l' = some r' ∧ KindsAlike r r') ∧
    (∀ {l l' r}, KindsAlike l l' → dropArguments limit l = some r →
      ∃ r', dropArguments limit l' = some r' ∧ KindsAlike r r') := by
  induction limit with
  | zero =>
    constructor
    · intro l l' r _ run
      simp [dropType] at run
    · intro l l' r _ run
      simp [dropArguments] at run
  | succ limit ih =>
    obtain ⟨ihType, ihArguments⟩ := ih
    constructor
    · intro l l' r h run
      cases l with
      | nil => simp [dropType] at run
      | cons k l =>
        cases k with
        | name w =>
          obtain ⟨v, m, rfl, rest⟩ := h.name
          have h := dropSegments_alike rest
          rw [dropType] at run ⊢
          split at run
          · next kinds segments =>
            rw [segments] at h
            obtain ⟨n, segments', h⟩ := h.fixed rfl rfl (by simp)
            rw [segments']
            obtain ⟨s, arguments, rfl⟩ := Option.map_eq_some_iff.mp run
            obtain ⟨s', arguments', rest⟩ := ihArguments h arguments
            exact ⟨dropBrackets s', by simp only [arguments', Option.map_some],
              dropBrackets_alike rest⟩
          · next kinds other =>
            cases run
            refine ⟨dropBrackets (dropSegments m), ?_, dropBrackets_alike h⟩
            split
            · next kinds' segments =>
              rw [segments] at h
              obtain ⟨n, segments', _⟩ := h.symm.fixed rfl rfl (by simp)
              exact (other n segments').elim
            · rfl
        | _ => simp [dropType] at run
    · intro l l' r h run
      rw [dropArguments] at run ⊢
      split at run
      · next kinds type =>
        obtain ⟨s, type', behind⟩ := ihType h type
        obtain ⟨m, rfl, rest⟩ := behind.comma
        simp only [type']
        rcases rest with rest | ⟨i, j, n, n', rfl, rfl, number, number'⟩
        · exact ihArguments rest run
        · -- No type begins with a number, so nothing can have been dropped.
          cases limit with
          | zero => simp [dropArguments] at run
          | succ limit =>
            have stuck : dropType limit (i :: n) = none := by
              cases limit with
              | zero => simp [dropType]
              | succ limit =>
                cases i with
                | integer | long | operator => simp [dropType]
                | _ => cases number
            simp [dropArguments, stuck] at run
      · next kinds type =>
        cases run
        obtain ⟨s, type', behind⟩ := ihType h type
        obtain ⟨m, rfl, rest⟩ := behind.fixed rfl rfl (by simp)
        exact ⟨m, by simp only [type'], rest⟩
      · cases run

theorem startsCastOperand_eq {j k : TokenKind} (h : j.shape = k.shape) :
    startsCastOperand j = startsCastOperand k := by
  have names := TokenKind.isName_eq_of_shape_eq h
  cases hj : j.isName with
  | true =>
    rw [hj] at names
    cases j <;> cases hj
    cases k <;> cases names
    rfl
  | false =>
    rw [hj] at names
    rw [TokenKind.shape_eq_blur hj, TokenKind.shape_eq_blur names.symm] at h
    cases j <;> cases k <;> simp_all [TokenKind.blur, startsCastOperand]

theorem looksLikeCast_of_alike {l l' : List TokenKind} (h : KindsAlike l l')
    (length : l.length = l'.length) (cast : looksLikeCast l = true) :
    looksLikeCast l' = true := by
  unfold looksLikeCast at cast ⊢
  split at cast
  · next operand rest type =>
    obtain ⟨r, type', behind⟩ := (dropType_alike _).1 h type
    obtain ⟨m, rfl, rest⟩ := behind.fixed rfl rfl (by simp)
    rw [← length]
    simp only [type']
    cases rest with
    | ended => exact cast
    | cons shape _ => exact (startsCastOperand_eq shape).symm.trans cast
    | opening opens _ _ => exact cast
  · cases cast

/-- The kinds of a number of tokens ahead. -/
def kindsFrom (c : Cursor) (n : Nat) : List TokenKind :=
  (List.range n).map fun i => (c.peek i).kind

theorem kindsFrom_succ {c : Cursor} (n : Nat) (inside : c.current.isEnd = false) :
    kindsFrom c (n + 1) = c.current.kind :: kindsFrom c.advance n := by
  simp [kindsFrom, List.range_succ_eq_map, c.peek_zero, Cursor.peek_succ inside]

theorem kindsFrom_alike {c d : Cursor} (h : c.Alike d) (n : Nat) :
    KindsAlike (kindsFrom c n) (kindsFrom d n) := by
  induction n generalizing c d with
  | zero => exact .nil
  | succ n ih =>
    cases h with
    | last ends ends' =>
      simp only [kindsFrom, List.range_succ_eq_map, List.map_cons, c.peek_zero, d.peek_zero,
        Token.kind_of_isEnd ends, Token.kind_of_isEnd ends']
      exact .ended
    | next shape inside rest =>
      rw [kindsFrom_succ n inside,
        kindsFrom_succ n (by rw [← Token.isEnd_eq_of_shape_eq shape, inside])]
      exact .cons shape (ih rest)
    | opening same opens number number' =>
      have inside : c.current.isEnd = false := Token.isEnd_of_holds _ opens rfl
      have inside' : d.current.isEnd = false := by
        rw [← Token.isEnd_eq_of_shape_eq (by rw [same]), inside]
      rw [kindsFrom_succ n inside, kindsFrom_succ n inside']
      cases n with
      | zero => exact .cons (by rw [same]) .nil
      | succ n =>
        rw [kindsFrom_succ n (Token.isEnd_of_holds _ number rfl),
          kindsFrom_succ n (Token.isEnd_of_holds _ number' rfl), ← same]
        exact .opening opens number number'

theorem castAhead_of_alike {c d : Cursor} (h : c.Alike d) (cast : castAhead c = true) :
    castAhead d = true := by
  obtain ⟨paren, window⟩ := Bool.and_eq_true_iff.mp cast
  have paren : c.current.kind = .punctuation .openParen := by simpa using paren
  have paren' := h.kind paren rfl
  have inside := isEnd_of_kind paren (by simp)
  have inside' := isEnd_of_kind paren' (by simp)
  have mapped : ∀ {b : Cursor}, b.current.isEnd = false →
      ((List.range castWindow).map fun i => (b.peek (i + 1)).kind) =
        kindsFrom b.advance castWindow := by
    intro b hb
    simp only [kindsFrom, Cursor.peek_succ hb]
  rw [mapped inside] at window
  unfold castAhead
  rw [mapped inside', paren']
  have length : (kindsFrom c.advance castWindow).length = (kindsFrom d.advance castWindow).length := by
    simp [kindsFrom]
  rcases h.advance inside with alike | ⟨number, _⟩
  · exact looksLikeCast_of_alike (kindsFrom_alike alike _) length window
  · -- A cast does not begin with a number.
    have first : c.advance.current.isEnd = false := Token.isEnd_of_holds _ number rfl
    rw [castWindow, kindsFrom_succ _ first] at window
    cases hk : c.advance.current.kind <;> simp [hk, TokenKind.startsNumber] at number
    all_goals simp [hk, looksLikeCast, dropType] at window

theorem castAhead_eq {c d : Cursor} (h : c.Alike d) : castAhead c = castAhead d :=
  Bool.eq_iff_iff.mpr ⟨castAhead_of_alike h, castAhead_of_alike h.symm⟩

theorem runAsAhead_of_alike {c d : Cursor} (h : c.Alike d) (ahead : runAsAhead c = true) :
    runAsAhead d = true := by
  unfold runAsAhead at ahead ⊢
  simp only [Bool.and_eq_true, beq_iff_eq] at ahead ⊢
  obtain ⟨⟨⟨system, dot⟩, runAs⟩, paren⟩ := ahead
  have inside : c.current.isEnd = false := Token.isEnd_of_holds (·.spells .kwSystem) system rfl
  have other : c.current.kind.opensValue = false := by
    cases hk : c.current.kind <;> simp_all [TokenKind.spells, TokenKind.opensValue]
  have inside' : d.current.isEnd = false := by
    rw [← Token.isEnd_eq_of_shape_eq h.shape, inside]
  have h₁ := h.advance_of_not_opens inside other
  rw [Cursor.peek_one inside] at dot
  rw [Cursor.peek_succ inside] at runAs paren
  have dot' := h₁.kind dot rfl
  have inside₁ := isEnd_of_kind dot (by simp)
  have inside₁' := isEnd_of_kind dot' (by simp)
  have h₂ := h₁.advance_of_not_opens inside₁ (by rw [dot]; rfl)
  rw [Cursor.peek_one inside₁] at runAs
  rw [Cursor.peek_succ inside₁] at paren
  have inside₂ : c.advance.advance.current.isEnd = false :=
    Token.isEnd_of_holds (·.spells .kwRunAs) runAs rfl
  have other₂ : c.advance.advance.current.kind.opensValue = false := by
    cases hk : c.advance.advance.current.kind <;>
      simp_all [TokenKind.spells, TokenKind.opensValue]
  have inside₂' : d.advance.advance.current.isEnd = false := by
    rw [← Token.isEnd_eq_of_shape_eq h₂.shape, inside₂]
  rw [Cursor.peek_one inside₂] at paren
  have paren' := (h₂.advance_of_not_opens inside₂ other₂).kind paren rfl
  rw [Cursor.peek_one inside', Cursor.peek_succ inside' 1, Cursor.peek_succ inside' 2,
    Cursor.peek_one inside₁', Cursor.peek_succ inside₁' 1, Cursor.peek_one inside₂']
  refine ⟨⟨⟨?_, dot'⟩, ?_⟩, paren'⟩
  · rw [← TokenKind.spells_eq_of_shape_eq h.shape, system]
  · rw [← TokenKind.spells_eq_of_shape_eq h₂.shape, runAs]

theorem runAsAhead_eq {c d : Cursor} (h : c.Alike d) : runAsAhead c = runAsAhead d :=
  Bool.eq_iff_iff.mpr ⟨runAsAhead_of_alike h, runAsAhead_of_alike h.symm⟩

end Grammar

end Apex
