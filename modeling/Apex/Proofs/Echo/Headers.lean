import Apex.Proofs.Echo.Types

/-!
# Reading headers again

Modifiers, annotations and headers are read again from any row in which their forms stand. The
items of a header come in the order in which they were read, which is the order in which they are
written.
-/

namespace Apex

open Grammar Apex.Parser

theorem Cursor.isEnd_of_before_advance {c : Cursor} (h : c.Before c.advance) :
    c.current.isEnd = false := by
  cases ends : c.current.isEnd with
  | false => rfl
  | true =>
    have stays : c.advance = c := by simp [advance, atEnd, ends]
    have moved := h.position
    rw [stays] at moved
    omega

/-! ## The sign of a number -/

theorem Binary64.neg_of_not_isNegative {v : Binary64} (h : v.isNegative = false) :
    v.neg.isNegative = true ∧ v.neg.neg = v := by
  obtain ⟨bits⟩ := v
  have power : Nat.pow 2 63 = 9223372036854775808 := by decide
  have small : bits.toNat < 9223372036854775808 := by
    simpa [isNegative, power] using h
  have magnitude : (Binary64.mk bits).magnitude = bits.toNat := by
    simp only [Binary64.magnitude, power]
    exact Nat.mod_eq_of_lt small
  have flipped : (Binary64.mk bits).neg = ⟨UInt64.ofNat (9223372036854775808 + bits.toNat)⟩ := by
    simp only [neg, h, ofPattern, magnitude, power, Bool.not_false, if_true]
  have toNat : (UInt64.ofNat (9223372036854775808 + bits.toNat)).toNat =
      9223372036854775808 + bits.toNat := by
    rw [UInt64.toNat_ofNat']
    exact Nat.mod_eq_of_lt (by omega)
  have negative : (Binary64.mk bits).neg.isNegative = true := by
    rw [flipped]
    simp only [isNegative, power, toNat, decide_eq_true_eq]
    omega
  refine ⟨negative, ?_⟩
  have rest : (Binary64.mk bits).neg.magnitude = bits.toNat := by
    rw [flipped]
    simp only [Binary64.magnitude, power, toNat]
    omega
  unfold neg at rest negative ⊢
  rw [negative, rest]
  simp [ofPattern]

theorem toInt_neg_of_nonneg {v : Int64} (h : 0 ≤ v.toInt) : (-v).toInt = -v.toInt := by
  rw [Int64.toInt_neg]
  have := v.toInt_lt
  exact Int.bmod_eq_of_le (by omega) (by omega)

/-! ## Modifiers -/

namespace Grammar

variable {c d c' : Cursor} {side : Side}

theorem keyword?_of_ofKeyword? {k : Keyword} {m : Modifier} (h : Modifier.ofKeyword? k = some m) :
    m.keyword? = some k := by
  have found := List.find?_some h
  simpa using found

theorem ofKeyword?_of_keyword? {k : Keyword} {m : Modifier} (h : m.keyword? = some k) :
    Modifier.ofKeyword? k = some m := by
  cases m <;> cases h <;> rfl

/-- The modifier ahead stands there. -/
theorem stands_of_modifierAhead? {m : Modifier} {n : Nat} (h : modifierAhead? c = some (m, n)) :
    Stands side m.forms c (c.advances n) := by
  rw [modifierAhead?_eq] at h
  have two : ∀ form : Form, form.Reads side c c.advance → c.current.isEnd = false →
      (c.peek 1).kind.spells .kwSharing = true →
      Stands side [form, .spelled .kwSharing] c (c.advances 2) := by
    intro form first inside sharing
    rw [Cursor.peek_one inside] at sharing
    exact ⟨_, first, _, ⟨sharing, rfl⟩, rfl⟩
  unfold modifierOf at h
  split at h
  · next found =>
    cases h
    obtain ⟨sharing, keyword⟩ : (c.peek 1).kind.spells .kwSharing = true ∧
      c.current.kind = .keyword .kwWith := by simpa using found
    have inside := isEnd_of_kind keyword (by simp)
    exact two (.keyword .kwWith) ⟨by rw [keyword], inside, rfl⟩ inside sharing
  split at h
  · next found =>
    cases h
    obtain ⟨sharing, spells⟩ := Bool.and_eq_true_iff.mp found
    have inside := Token.isEnd_of_holds (·.spells .kwWithout) spells rfl
    exact two (.spelled .kwWithout) ⟨spells, rfl⟩ inside sharing
  split at h
  · next found =>
    cases h
    obtain ⟨sharing, spells⟩ := Bool.and_eq_true_iff.mp found
    have inside := Token.isEnd_of_holds (·.spells .kwInherited) spells rfl
    exact two (.spelled .kwInherited) ⟨spells, rfl⟩ inside sharing
  · split at h
    · next k keyword =>
      obtain ⟨m, found, done⟩ := Option.map_eq_some_iff.mp h
      cases done
      simp only [Modifier.forms, keyword?_of_ofKeyword? found]
      exact stands_single.mpr ⟨by rw [keyword], isEnd_of_kind keyword (by simp), rfl⟩
    · cases h

/-- What stands for a modifier is read as that modifier. -/
theorem modifierAhead?_of_stands {m : Modifier} (h : Stands side m.forms c c') :
    ∃ n, modifierAhead? c = some (m, n) ∧ c' = c.advances n := by
  rw [modifierAhead?_eq]
  have two : ∀ {form : Form}, Stands side [form, .spelled .kwSharing] c c' →
      (∀ {c₁}, form.Reads side c c₁ → c₁ = c.advance) →
      form.Reads side c c.advance ∧ (c.peek 1).kind.spells .kwSharing = true ∧
        c' = c.advances 2 := by
    rintro form ⟨c₁, first, _, ⟨sharing, rfl⟩, rfl⟩ one
    obtain rfl := one first
    have inside := Cursor.isEnd_of_before_advance first.before
    exact ⟨first, by rwa [Cursor.peek_one inside], rfl⟩
  cases hm : m.keyword? with
  | some k =>
    simp only [Modifier.forms, hm] at h
    obtain ⟨kinds, _, rfl⟩ := stands_single.mp h
    have keyword : c.current.kind = .keyword k := TokenKind.eq_of_blur_eq kinds rfl
    have other : k ≠ .kwWith := by
      rintro rfl
      cases m <;> cases hm
    refine ⟨1, ?_, rfl⟩
    rw [keyword]
    simp [modifierOf, TokenKind.spells, other, ofKeyword?_of_keyword? hm]
  | none =>
    cases m <;> cases hm <;> simp only [Modifier.forms, Modifier.keyword?] at h
    · obtain ⟨⟨kinds, _⟩, sharing, rfl⟩ := two h fun read => read.2.2
      have keyword : c.current.kind = .keyword .kwWith := TokenKind.eq_of_blur_eq kinds rfl
      exact ⟨2, by simp [modifierOf, keyword, sharing], rfl⟩
    · obtain ⟨⟨spells, _⟩, sharing, rfl⟩ := two h fun read => read.2
      have other : c.current.kind ≠ .keyword .kwWith := by
        intro keyword
        rw [keyword] at spells
        cases spells
      exact ⟨2, by simp [modifierOf, other, spells, sharing], rfl⟩
    · obtain ⟨⟨spells, _⟩, sharing, rfl⟩ := two h fun read => read.2
      have other : c.current.kind ≠ .keyword .kwWith := by
        intro keyword
        rw [keyword] at spells
        cases spells
      have without : c.current.kind.spells .kwWithout = false := by
        cases hk : c.current.kind with
        | name w =>
          rw [hk] at spells
          simp only [TokenKind.spells, Keyword.isSpelledBy, sameWord, beq_iff_eq] at spells ⊢
          rw [← spells]
          decide +kernel
        | _ => rfl
      exact ⟨2, by simp [modifierOf, other, without, spells, sharing], rfl⟩

theorem isSteady_modifier (m : Modifier) : ∀ form ∈ m.forms, form.isSteady = true := by
  cases m <;> decide

theorem modifier?_echoes :
    Echoes .loose .loose modifier? (optionForms fun m => m.value.forms)
      (Option.map (Spanned.blur .erasing)) := by
  intro c sound m? c' run
  rcases modifier?_ok.mp run with ⟨⟨m, n⟩, ahead, turn⟩ | ⟨missing, other, turn⟩
  · cases turn
    have stands : Stands .source m.forms c (c.advances n) := stands_of_modifierAhead? ahead
    refine ⟨m.forms, rfl, stands, fun d d' sorted standsD meets => ?_⟩
    obtain ⟨k, ahead', rfl⟩ := modifierAhead?_of_stands standsD
    exact ⟨stands.alike (isSteady_modifier m) standsD meets, _,
      modifier?_ok.mpr (.inl ⟨(m, k), ahead', rfl⟩), rfl⟩
  · cases turn
    refine ⟨[], rfl, rfl, ?_⟩
    rintro _ d sorted rfl meets
    have missing' : modifierAhead? d = none := by rw [← meets.modifierAhead?_eq, missing]
    have other' := mt (meets.kind_iff rfl rfl).mpr other
    exact ⟨meets, none, modifier?_ok.mpr (.inr ⟨missing', other', rfl⟩), rfl⟩

/-- A modifier that is not among the earlier ones in one row is not among them in the other. -/
theorem checkFresh_echoes {α γ : Type} {e e₁ : Edge} {read : List Form} {forms : α → List Form}
    {view : α → γ} {f g : PUnit → Parser α} {s t : List (Spanned Modifier)}
    {m m' : Spanned Modifier} {c : Cursor}
    (same : s.map (Spanned.blur .erasing) = t.map (Spanned.blur .erasing))
    (head : m.blur .erasing = m'.blur .erasing)
    (h : EchoesAt e e₁ read c (f ⟨⟩) (g ⟨⟩) forms view) :
    EchoesAt e e₁ read c (checkFresh s m >>= f) (checkFresh t m' >>= g) forms view := by
  have values : s.map Spanned.value = t.map Spanned.value := by
    have := congrArg (List.map Spanned.value) same
    rwa [List.map_map, List.map_map] at this
  have any := any_value_eq values (Spanned.value_like head)
  intro sound x c' run
  obtain ⟨fresh, run⟩ := checkFresh_bind_ok.mp run
  obtain ⟨F, all, stands, again⟩ := h sound run
  refine ⟨F, all, stands, fun d d' sorted standsD meets => ?_⟩
  obtain ⟨begin, y, run', same'⟩ := again sorted standsD meets
  exact ⟨begin, y, checkFresh_bind_ok.mpr ⟨by rw [← any, fresh], run'⟩, same'⟩

theorem modifierStep_before {s s' : List (Spanned Modifier)} {c₁ : Cursor}
    (run : modifierStep s c = .ok (.again s', c₁)) : c.Before c₁ := by
  rcases modifierStep_ok.mp run with ⟨m, _, some, _, turn⟩ | ⟨_, _, turn⟩
  · cases turn
    exact modifier?_before some
  · cases turn

theorem modifiers_echoes :
    Echoes .loose .loose modifiers modifierForms (List.map (Spanned.blur .erasing)) := by
  intro c
  refine .iterate (fun ms => modifierForms ms.reverse) (List.map (Spanned.blur .erasing))
    (s := []) (fun {s t c} same => ?_) (fun _ run => modifierStep_before run) rfl
  refine .bind (modifier?_echoes c) fun {x y c₁} samex => ?_
  cases x with
  | none =>
    cases y with
    | some y => cases samex
    | none =>
      refine .pure (by simp [Turn.forms, optionForms]) ?_
      simp only [Turn.map, List.map_reverse, same]
  | some x =>
    cases y with
    | none => cases samex
    | some y =>
      have samex : x.blur .erasing = y.blur .erasing := Option.some.inj samex
      refine checkFresh_echoes same samex (.pure ?_ ?_)
      · simp [Turn.forms, optionForms, modifierForms]
      · simp only [Turn.map, List.map_cons, same, samex]

end Grammar

/-! ## What is nested deeper -/

/-- What two headers have in common: what they say, and in which order. -/
def Header.view (h : Header) : Header × List HeaderItem :=
  (h.blur .erasing, h.items.map (HeaderItem.blur .erasing))

/-- What two declarations of a type have in common: what they say, and how they are written. -/
def TypeDeclaration.view (t : TypeDeclaration) : TypeDeclaration × List Mark :=
  (t.blur .erasing, t.marks)

/-- Whatever may be nested one level further down is read again from any row in which its forms
stand. -/
structure Deeper.Echoes (D : Deeper) : Prop where
  typeRef : Parser.Echoes .tight .loose D.typeRef TypeRef.forms (TypeRef.blur .erasing)
  annotationMark : Parser.Echoes .tight .loose D.annotationMark AnnotationMark.forms
    (AnnotationMark.blur .erasing)
  annotationValue : Parser.Echoes .value .loose D.annotationValue AnnotationValue.forms
    (AnnotationValue.blur .erasing)
  assignment : Parser.Echoes .tight .tight D.assignment Expr.forms (Expr.blur .erasing)
  ternary : Parser.Echoes .tight .tight D.ternary Expr.forms (Expr.blur .erasing)
  unary : Parser.Echoes .tight .tight D.unary Expr.forms (Expr.blur .erasing)
  statement : Parser.Echoes .loose .loose D.statement Statement.forms (Statement.blur .erasing)
  typeDeclaration : ∀ {read read' : ReadHeader} {c}, read.header.view = read'.header.view →
    EchoesAt .loose .loose read.header.forms c (D.typeDeclaration read) (D.typeDeclaration read')
      TypeDeclaration.forms TypeDeclaration.view
  mirrors : Mirrors D.typeRef D.typeRef fun _ => ()
  ahead : ∀ {look : Parser TypeRef → Parser Unit}, (∀ {argument : Parser TypeRef},
      Mirrors argument argument (fun _ => ()) →
      Mirrors (look argument) (look argument) fun _ => ()) →
    ∀ {c d}, Edge.value.Meets c d → ∃ found, D.ahead look c = .ok (found, c) ∧
      D.ahead look d = .ok (found, d)

namespace Grammar

variable {D : Deeper}

/-! ## Annotations -/

/-- A number behind a minus sign stands for the sign and the number, unless it is zero. -/
theorem signedForms_negated {t : Token} {value : Literal} (genuine : t.Genuine)
    (h : negatedLiteral? t.kind = some value) :
    (annotationLiteral? t.kind = some value ∧ t.kind.startsNumber = true ∧
      value.signedForms = [.zero t.kind]) ∨
      value.signedForms = [.sign .minus, .kind t.kind] := by
  unfold Token.Genuine at genuine
  cases hk : t.kind with
  | integer v =>
    rw [hk] at h genuine
    cases h
    have negated := toInt_neg_of_nonneg genuine
    by_cases zero : v = 0
    · subst zero
      exact .inl ⟨rfl, rfl, rfl⟩
    · have nonzero : v.toInt ≠ 0 := fun h => zero (Int64.toInt_inj.mp h)
      have genuine : 0 ≤ v.toInt := genuine
      refine .inr ?_
      rw [Literal.signedForms, if_pos (by omega), Int64.neg_neg]
  | long v =>
    rw [hk] at h genuine
    cases h
    have negated := toInt_neg_of_nonneg genuine
    by_cases zero : v = 0
    · subst zero
      exact .inl ⟨rfl, rfl, rfl⟩
    · have nonzero : v.toInt ≠ 0 := fun h => zero (Int64.toInt_inj.mp h)
      have genuine : 0 ≤ v.toInt := genuine
      refine .inr ?_
      rw [Literal.signedForms, if_pos (by omega), Int64.neg_neg]
  | decimal v =>
    rw [hk] at h genuine
    cases h
    obtain ⟨negative, twice⟩ := Binary64.neg_of_not_isNegative genuine.1
    refine .inr ?_
    rw [Literal.signedForms, if_pos negative, twice]
  | _ => simp [hk, negatedLiteral?] at h

/-- A literal without a sign stands for its token. -/
theorem signedForms_literal {t : Token} {value : Literal} (genuine : t.Genuine)
    (h : annotationLiteral? t.kind = some value) :
    (t.kind.startsNumber = true ∧ value.signedForms = [.zero t.kind]) ∨
      value.signedForms = [.kind t.kind] := by
  unfold Token.Genuine at genuine
  cases hk : t.kind with
  | integer v =>
    rw [hk] at h genuine
    cases h
    have genuine : 0 ≤ v.toInt := genuine
    rw [Literal.signedForms, if_neg (by omega)]
    by_cases zero : v = 0
    · subst zero
      exact .inl ⟨rfl, rfl⟩
    · exact .inr (if_neg zero)
  | long v =>
    rw [hk] at h genuine
    cases h
    have genuine : 0 ≤ v.toInt := genuine
    rw [Literal.signedForms, if_neg (by omega)]
    by_cases zero : v = 0
    · subst zero
      exact .inl ⟨rfl, rfl⟩
    · exact .inr (if_neg zero)
  | decimal v =>
    rw [hk] at h genuine
    cases h
    refine .inr ?_
    rw [Literal.signedForms, genuine.1]
    rfl
  | keyword k =>
    rw [hk] at h
    cases k <;> cases h <;> exact .inr rfl
  | string v =>
    rw [hk] at h
    cases h
    exact .inr rfl
  | _ => simp [hk, annotationLiteral?] at h

theorem literalValue_echoes :
    Echoes .value .loose literalValue AnnotationValue.forms (AnnotationValue.blur .erasing) := by
  intro c sound x c' run
  -- Behind a sign and without one, the other row may hold the number without a sign.
  have bare : ∀ {d : Cursor} {k : TokenKind} {value : Literal}, annotationLiteral? k = some value →
      d.current.kind = k → ∃ y, literalValue d = .ok (y, d.advance) ∧
        AnnotationValue.blur .erasing y = .literal (.point 0) (value.blur .erasing) := by
    intro d k value literal same
    refine ⟨_, literalValue_ok.mpr (.inr ⟨?_, value, by rw [same, literal], rfl⟩), rfl⟩
    rw [same]
    rintro rfl
    cases literal
  rcases literalValue_ok.mp run with ⟨minus, value, negated, done⟩ | ⟨other, value, literal, done⟩
  · cases done
    have inside := isEnd_of_kind minus (by simp)
    rw [Cursor.peek_one inside] at negated
    rcases signedForms_negated sound.advance.current negated with ⟨literal, number, forms⟩ | forms
    · refine ⟨[.zero c.advance.current.kind], forms.symm,
        stands_single.mpr ⟨number, .inr ⟨minus, rfl, rfl⟩⟩, fun d d' sorted stands meets => ?_⟩
      obtain ⟨_, same, rfl⟩ := stands_single.mp stands
      obtain ⟨y, run', view⟩ := bare literal same
      exact ⟨.inr ⟨by rw [minus]; rfl, by rwa [same]⟩, y, run', view.symm⟩
    · have more : c.advance.current.isEnd = false := by
        cases hk : c.advance.current.kind <;> simp_all [negatedLiteral?, Token.isEnd]
      refine ⟨[.sign .minus, .kind c.advance.current.kind], forms.symm,
        ⟨_, ⟨by rw [minus], inside, rfl⟩, _, ⟨rfl, more, rfl⟩, rfl⟩, ?_⟩
      rintro d d' sorted ⟨_, ⟨kinds, inside', rfl⟩, _, ⟨kinds', _, rfl⟩, rfl⟩ meets
      have minus' : d.current.kind = .operator .minus := TokenKind.eq_of_blur_eq kinds rfl
      have same : d.advance.current.kind = c.advance.current.kind := by
        cases hk : c.advance.current.kind <;> simp [hk, negatedLiteral?] at negated <;>
          cases hj : d.advance.current.kind <;> simp_all [TokenKind.blur]
      refine ⟨.inr ⟨by rw [minus]; rfl, by rw [minus']; rfl⟩, _,
        literalValue_ok.mpr (.inl ⟨minus', value, ?_, rfl⟩), rfl⟩
      rw [Cursor.peek_one inside', same, negated]
  · cases done
    have inside : c.current.isEnd = false := by
      cases hk : c.current.kind <;> simp_all [annotationLiteral?, Token.isEnd]
    rcases signedForms_literal sound.current literal with ⟨number, forms⟩ | forms
    · refine ⟨[.zero c.current.kind], forms.symm, stands_single.mpr ⟨number, .inl ⟨rfl, rfl⟩⟩,
        fun d d' sorted stands meets => ?_⟩
      obtain ⟨_, same, rfl⟩ := stands_single.mp stands
      obtain ⟨y, run', view⟩ := bare literal same
      exact ⟨.inr ⟨number, by rwa [same]⟩, y, run', view.symm⟩
    · refine ⟨[.kind c.current.kind], forms.symm, stands_single.mpr ⟨rfl, inside, rfl⟩,
        fun d d' sorted stands meets => ?_⟩
      obtain ⟨kinds, _, rfl⟩ := stands_single.mp stands
      have same : d.current.kind = c.current.kind := by
        cases hk : c.current.kind <;> simp [hk, annotationLiteral?] at literal <;>
          cases hj : d.current.kind <;> simp_all [TokenKind.blur]
      obtain ⟨y, run', view⟩ := bare literal same
      exact ⟨Edge.Meets.before meets (by rw [same]) inside (by simp) (by simp), y, run', view.symm⟩

theorem valueEnds_echoes {α γ : Type} {e e₁ : Edge} {read : List Form} {forms : α → List Form}
    {view : α → γ} {f g : PUnit → Parser α} {s t : Span} {marks : List Punctuation} {c : Cursor}
    (h : EchoesAt e e₁ read c (f ⟨⟩) (g ⟨⟩) forms view) :
    EchoesAt e e₁ read c (checkValueEnds s marks >>= f) (checkValueEnds t marks >>= g) forms
      view := by
  intro sound x c' run
  obtain ⟨ends, run⟩ := checkValueEnds_bind_ok.mp run
  obtain ⟨F, all, stands, again⟩ := h sound run
  refine ⟨F, all, stands, fun d d' sorted standsD meets => ?_⟩
  obtain ⟨begin, y, run', same⟩ := again sorted standsD meets
  exact ⟨begin, y, checkValueEnds_bind_ok.mpr ⟨by rw [← begin.isOneOf_eq, ends], run'⟩, same⟩

theorem keyAhead_echoes {α γ : Type} {e e₁ : Edge} {read : List Form} {forms : α → List Form}
    {view : α → γ} {f g : Bool → Parser α} {c : Cursor}
    (h : EchoesAt e e₁ read c (f (keyIsAhead c)) (g (keyIsAhead c)) forms view) :
    EchoesAt e e₁ read c (keyAhead >>= f) (keyAhead >>= g) forms view := by
  intro sound x c' run
  obtain ⟨F, all, stands, again⟩ := h sound (keyAhead_bind_ok.mp run)
  refine ⟨F, all, stands, fun d d' sorted standsD meets => ?_⟩
  obtain ⟨begin, y, run', same⟩ := again sorted standsD meets
  exact ⟨begin, y, keyAhead_bind_ok.mpr (begin.keyIsAhead_eq ▸ run'), same⟩

theorem arrayValue_echoes (hD : D.Echoes) :
    Echoes .value .loose (arrayValue D) AnnotationValue.forms (AnnotationValue.blur .erasing) :=
  fun c => .bind (hD.annotationValue c) fun same => valueEnds_echoes (.pure rfl same)

theorem arrayValues_echoes (hD : D.Echoes) :
    Echoes .value .loose (arrayValues D) (fun vs => Form.commas (vs.map AnnotationValue.forms))
      (List.map (AnnotationValue.blur .erasing)) := by
  intro c
  refine .isAt rfl rfl (fun _ => ?_) (fun _ => .commaSeparated (arrayValue_echoes hD _))
  exact EchoesAt.atValue (EchoesAt.pure (e := .loose) rfl rfl)

theorem annotationValue_echoes (hD : D.Echoes) :
    Echoes .value .loose (annotationValue D) AnnotationValue.forms
      (AnnotationValue.blur .erasing) := by
  intro c
  refine .here fun {s t} => .isAt rfl rfl (fun _ => ?_) (fun _ => ?_)
  · refine EchoesAt.map ((hD.annotationMark c).begin _) (fun a => rfl) fun same => ?_
    simp only [AnnotationValue.blur, same]
  refine .accept rfl rfl (by simp) (by simp) (fun _ => ?_) (fun _ => literalValue_echoes c)
  refine .bind (arrayValues_echoes hD _) fun {vs ws c₁} same => ?_
  refine .expect rfl (by simp) (by simp) fun {s t} => .spanFrom fun {s t} => .pure ?_ ?_
  · simp [AnnotationValue.forms, Form.braces]
  · simp only [AnnotationValue.blur, AnnotationValue.blurAll_eq_map, Blur.erasing_span, same]

theorem keyedElement_echoes (hD : D.Echoes) :
    Echoes .loose .loose (keyedElement D) AnnotationElement.forms
      (AnnotationElement.blur .erasing) := by
  intro c
  refine .bind ((identifier_echoes c).begin _) fun {k k' c₁} key => ?_
  refine .expect rfl (by simp) (by simp) fun {s t} => ?_
  refine .bind (annotationValue_echoes hD _) fun {v v' c₂} value => ?_
  refine keyAhead_echoes ?_
  have comma : EchoesAt .loose .loose ([] ++ [Form.ident k] ++ [.sign .assign] ++ v.forms) c₂
      (do let comma ← Parser.accept (.punctuation .comma)
          return AnnotationElement.mk (k.span.merge v.span) (some k) v comma)
      (do let comma ← Parser.accept (.punctuation .comma)
          return AnnotationElement.mk (k'.span.merge v'.span) (some k') v' comma)
      AnnotationElement.forms (AnnotationElement.blur .erasing) := by
    have same : ∀ comma, AnnotationElement.blur .erasing
        (.mk (k.span.merge v.span) (some k) v comma) =
        AnnotationElement.blur .erasing (.mk (k'.span.merge v'.span) (some k') v' comma) := by
      intro comma
      simp only [AnnotationElement.blur, Option.map_some, Blur.erasing_span, key, value]
    refine .accept rfl rfl (by simp) (by simp) (fun _ => ?_) (fun _ => .pure ?_ (same _))
    · refine EchoesAt.atValue (EchoesAt.pure (e := .loose) ?_ (same _))
      simp [AnnotationElement.forms]
    · simp [AnnotationElement.forms]
  cases keyIsAhead c₂ with
  | true => exact comma
  | false => exact valueEnds_echoes comma

theorem annotationElements_echoes (hD : D.Echoes) :
    Echoes .value .loose (annotationElements D) (fun es => es.flatMap AnnotationElement.forms)
      (List.map (AnnotationElement.blur .erasing)) := by
  intro c
  refine keyAhead_echoes ?_
  cases keyIsAhead c with
  | true =>
    refine EchoesAt.atValue (.itemsUntil rfl rfl (keyedElement_echoes hD _) fun sound run => ?_)
    refine (keyedElement_echoes hD _).before run sound fun none => ?_
    obtain ⟨key, _, value, _, _, _, _, _, ⟨_, done⟩ | ⟨_, done⟩⟩ := keyedElement_ok.mp run
    all_goals
      cases done
      simp [AnnotationElement.forms] at none
  | false =>
    refine .isAt rfl rfl (fun _ => ?_) (fun _ => ?_)
    · exact EchoesAt.atValue (EchoesAt.pure (e := .loose) rfl rfl)
    · refine .bind (annotationValue_echoes hD _) fun {v w c₁} same => ?_
      refine valueEnds_echoes (.pure ?_ ?_)
      · simp [AnnotationElement.forms]
      · simp only [List.map_cons, List.map_nil, AnnotationElement.blur, Option.map_none,
          Blur.erasing_span, same]

theorem annotation_echoes (hD : D.Echoes) :
    Echoes .tight .loose (annotationMark D) AnnotationMark.forms
      (AnnotationMark.blur .erasing) := by
  intro c
  refine .expect rfl (by simp) (by simp) fun {s t} => ?_
  refine .bind ((identifier_echoes _).begin _) fun {i j c₁} name => ?_
  refine .accept rfl rfl (by simp) (by simp) (fun _ => ?_) (fun _ => ?_)
  · refine .bind (annotationElements_echoes hD _) fun {es es' c₂} same => ?_
    refine .expect rfl (by simp) (by simp) fun {s t} => .spanFrom fun {s t} => .pure ?_ ?_
    · simp [AnnotationMark.forms, Form.parens, List.flatMap_def]
    · simp only [AnnotationMark.blur, AnnotationElement.blurAll_eq_map, Blur.erasing_span, name,
        same]
  · refine .spanFrom fun {s t} => .pure ?_ ?_
    · simp [AnnotationMark.forms]
    · simp only [AnnotationMark.blur, AnnotationElement.blurAll_eq_map, Blur.erasing_span, name]

/-! ## Headers -/

theorem modifiers_blur {s t : List HeaderItem} {b : Blur}
    (same : s.map (HeaderItem.blur b) = t.map (HeaderItem.blur b)) :
    (s.filterMap HeaderItem.modifier?).map (Spanned.blur b) =
      (t.filterMap HeaderItem.modifier?).map (Spanned.blur b) := by
  have mapped : ∀ is : List HeaderItem, (is.filterMap HeaderItem.modifier?).map (Spanned.blur b) =
      (is.map (HeaderItem.blur b)).filterMap HeaderItem.modifier? := by
    intro is
    rw [List.map_filterMap, List.filterMap_map]
    congr 1
    funext i
    cases i <;> rfl
  rw [mapped, mapped, same]

theorem annotations_blur {s t : List HeaderItem} {b : Blur}
    (same : s.map (HeaderItem.blur b) = t.map (HeaderItem.blur b)) :
    (s.filterMap HeaderItem.annotationMark?).map (AnnotationMark.blur b) =
      (t.filterMap HeaderItem.annotationMark?).map (AnnotationMark.blur b) := by
  have mapped : ∀ is : List HeaderItem,
      (is.filterMap HeaderItem.annotationMark?).map (AnnotationMark.blur b) =
        (is.map (HeaderItem.blur b)).filterMap HeaderItem.annotationMark? := by
    intro is
    rw [List.map_filterMap, List.filterMap_map]
    congr 1
    funext i
    cases i <;> rfl
  rw [mapped, mapped, same]

theorem itemStep_echoes (hD : D.Echoes) {s t : List HeaderItem} {c : Cursor}
    (same : s.map (HeaderItem.blur .erasing) = t.map (HeaderItem.blur .erasing)) :
    EchoesAt .loose .loose (s.reverse.flatMap HeaderItem.forms) c (itemStep D s) (itemStep D t)
      (Turn.forms (fun is => is.reverse.flatMap HeaderItem.forms)
        fun is => is.flatMap HeaderItem.forms)
      (Turn.map (List.map (HeaderItem.blur .erasing)) (List.map (HeaderItem.blur .erasing))) := by
  refine .isAt rfl rfl (fun _ => ?_) (fun _ => ?_)
  · refine .bind ((annotation_echoes hD c).begin _) fun {a a' c₁} head => .pure ?_ ?_
    · simp [Turn.forms, HeaderItem.forms]
    · simp only [Turn.map, List.map_cons, HeaderItem.blur, same, head]
  · refine .bind (modifier?_echoes c) fun {x y c₁} head => ?_
    cases x with
    | none =>
      cases y with
      | some y => cases head
      | none =>
        refine .pure (by simp [Turn.forms, optionForms]) ?_
        simp only [Turn.map, List.map_reverse, same]
    | some x =>
      cases y with
      | none => cases head
      | some y =>
        have head : x.blur .erasing = y.blur .erasing := Option.some.inj head
        refine checkFresh_echoes (modifiers_blur same) head (.pure ?_ ?_)
        · simp [Turn.forms, optionForms, HeaderItem.forms]
        · simp only [Turn.map, List.map_cons, HeaderItem.blur, same, head]

theorem headerItems_echoes (hD : D.Echoes) :
    Echoes .loose .loose (iterate (itemStep D) []) (fun is => is.flatMap HeaderItem.forms)
      (List.map (HeaderItem.blur .erasing)) := by
  intro c
  refine .iterate (fun is => is.reverse.flatMap HeaderItem.forms)
    (List.map (HeaderItem.blur .erasing)) (s := []) (itemStep_echoes hD)
    (fun {s c s' c₁} sound run => ?_) rfl
  rcases itemStep_ok.mp run with ⟨i, _, read, _, turn⟩ | ⟨_, _, turn⟩
  · cases turn
    cases i with
    | annotated a =>
      refine (annotation_echoes hD c).before read.2 sound ?_
      cases a
      simp [AnnotationMark.forms]
    | modifier m => exact modifier?_before read.2
  · cases turn

/-- A header is read again with its items in the same order. -/
theorem header_echoes (hD : D.Echoes) (hS : D.Sits) :
    Echoes .loose .loose (header D) (·.header.forms) (·.header.view) := by
  intro c sound read c' run
  rw [header_eq] at run
  obtain ⟨items, _, run, done⟩ := map_ok.mp run
  cases done
  obtain ⟨F, all, stands, again⟩ := headerItems_echoes hD c sound run
  obtain ⟨_, kept⟩ := items_headerOf hS sound.sorted (headerItems_items run)
  have all : [] ++ F = (headerOf items).header.forms := by
    rw [Header.forms, kept]
    exact all
  refine ⟨F, all, stands, fun d d' sorted standsD meets => ?_⟩
  obtain ⟨begin, items', run', same⟩ := again sorted standsD meets
  obtain ⟨_, kept'⟩ := items_headerOf hS sorted (headerItems_items run')
  refine ⟨begin, headerOf items', by rw [header_eq]; exact map_ok.mpr ⟨items', d', run', rfl⟩, ?_⟩
  have blurred : (headerOf items).header.blur .erasing = (headerOf items').header.blur .erasing := by
    simp only [Header.blur, headerOf, annotations_blur same, modifiers_blur same]
  simp only [Header.view, kept, kept', same, blurred]

end Grammar

end Apex
