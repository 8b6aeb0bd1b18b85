import Apex.Proofs.Forms.Rows

/-!
# Reading the same tree from another row

A parser that has read a tree from a source reads it again from any row in which the forms of the
tree stand, provided that both rows go on alike behind it. This is carried through the grammar
parser by parser. The rows are compared where one parser ends and the next begins, as closely as
what follows there will look at them.
-/

namespace Apex

open Grammar Apex.Parser

/-! ## Rows that go on alike -/

/-- The tokens from two places on have the same shapes to the end of both rows, or to a value of
an annotation that has a sign in one of them only. -/
inductive Cursor.Alike : Cursor → Cursor → Prop where
  | last {c d} (ends : c.current.isEnd = true) (ends' : d.current.isEnd = true) : Alike c d
  | next {c d} (shape : c.current.kind.shape = d.current.kind.shape)
    (inside : c.current.isEnd = false) (rest : Alike c.advance d.advance) : Alike c d
  | opening {c d} (same : c.current.kind = d.current.kind)
    (opens : c.current.kind.opensValue = true)
    (number : c.advance.current.kind.startsNumber = true)
    (number' : d.advance.current.kind.startsNumber = true) : Alike c d

/-- How closely two rows are compared at the places where a parser ends. -/
inductive Edge where
  /-- A value of an annotation may begin here, in one of the rows with a sign. -/
  | value
  /-- The rows go on alike. -/
  | loose
  /-- Moreover the same operator lies ahead, if one does. -/
  | tight
deriving DecidableEq

/-- Two places are alike as far as the edge asks for it. -/
def Edge.Meets (e : Edge) (c d : Cursor) : Prop :=
  match e with
  | .value =>
    c.Alike d ∨ (c.current.kind.startsNumber = true ∧ d.current.kind.startsNumber = true)
  | .loose => c.Alike d
  | .tight => c.Alike d ∧ operatorAhead? c = operatorAhead? d

theorem Token.kind_of_isEnd {t : Token} (h : t.isEnd = true) : t.kind = .endOfFile := by
  unfold isEnd at h
  cases hk : t.kind <;> simp_all

theorem Token.isEnd_eq_of_shape_eq {s t : Token} (h : s.kind.shape = t.kind.shape) :
    s.isEnd = t.isEnd := by
  cases hs : s.isEnd with
  | true =>
    have hk := s.kind_of_isEnd hs
    have : t.kind = s.kind := TokenKind.eq_of_shape_eq h.symm (by rw [hk]; rfl)
    simp [isEnd, this, hk]
  | false =>
    cases ht : t.isEnd with
    | false => rfl
    | true =>
      have hk := t.kind_of_isEnd ht
      have : s.kind = t.kind := TokenKind.eq_of_shape_eq h (by rw [hk]; rfl)
      simp [isEnd, this, hk] at hs

namespace Cursor.Alike

variable {c d : Cursor}

theorem shape (h : c.Alike d) : c.current.kind.shape = d.current.kind.shape := by
  cases h with
  | last ends ends' => rw [Token.kind_of_isEnd ends, Token.kind_of_isEnd ends']
  | next shape _ _ => exact shape
  | opening same _ _ _ => rw [same]

theorem kind (h : c.Alike d) {k : TokenKind} (hc : c.current.kind = k) (fixed : k.isFixed = true) :
    d.current.kind = k :=
  TokenKind.eq_of_shape_eq (by rw [← h.shape, hc]) fixed

theorem symm (h : c.Alike d) : d.Alike c := by
  induction h with
  | last ends ends' => exact .last ends' ends
  | next shape inside _ ih =>
    exact .next shape.symm (by rw [← Token.isEnd_eq_of_shape_eq shape, inside]) ih
  | opening same opens number number' => exact .opening same.symm (same ▸ opens) number' number

theorem advance (h : c.Alike d) (inside : c.current.isEnd = false) :
    Edge.value.Meets c.advance d.advance := by
  cases h with
  | last ends _ => rw [ends] at inside; cases inside
  | next _ _ rest => exact .inl rest
  | opening _ _ number number' => exact .inr ⟨number, number'⟩

/-- Behind a token that no value can follow the rows go on alike. -/
theorem advance_of_not_opens (h : c.Alike d) (inside : c.current.isEnd = false)
    (other : c.current.kind.opensValue = false) : c.advance.Alike d.advance := by
  cases h with
  | last ends _ => rw [ends] at inside; cases inside
  | next _ _ rest => exact rest
  | opening _ opens _ _ => rw [other] at opens; cases opens

end Cursor.Alike

namespace Edge

variable {e : Edge} {c d : Cursor}

theorem Meets.of_tight (h : tight.Meets c d) : e.Meets c d := by
  cases e with
  | value => exact .inl h.1
  | loose => exact h.1
  | tight => exact h

theorem Meets.value (h : e.Meets c d) : value.Meets c d := by
  cases e with
  | value => exact h
  | loose => exact .inl h
  | tight => exact .inl h.1

/-- Places with tokens of one shape before places that are alike. -/
theorem Meets.before {e' : Edge} (h : e.Meets c.advance d.advance)
    (shape : c.current.kind.shape = d.current.kind.shape) (inside : c.current.isEnd = false)
    (opens : e = .value → c.current.kind.opensValue = true)
    (other : e' = .tight → c.current.kind ≠ .operator .greater) : e'.Meets c d := by
  have alike : c.Alike d := by
    cases e with
    | loose => exact .next shape inside h
    | tight => exact .next shape inside h.1
    | value =>
      rcases h with alike | ⟨number, number'⟩
      · exact .next shape inside alike
      · have opens := opens rfl
        refine .opening ?_ opens number number'
        refine (TokenKind.eq_of_shape_eq shape.symm ?_).symm
        cases hk : c.current.kind <;> simp_all [TokenKind.opensValue, TokenKind.isFixed]
  cases e' with
  | value => exact .inl alike
  | loose => exact alike
  | tight =>
    exact ⟨alike, operatorAhead?_congr (TokenKind.operator?_eq_of_shape_eq shape) (other rfl)⟩

/-- A token that no number can be is in both rows or in none. -/
theorem Meets.kind_iff (h : e.Meets c d) {k : TokenKind} (fixed : k.isFixed = true)
    (other : k.startsNumber = false) : c.current.kind = k ↔ d.current.kind = k := by
  rcases h.value with alike | ⟨number, number'⟩
  · exact ⟨fun hc => alike.kind hc fixed, fun hd => alike.symm.kind hd fixed⟩
  · constructor
    · rintro rfl
      rw [number] at other
      cases other
    · rintro rfl
      rw [number'] at other
      cases other

end Edge

/-! ### Forms that leave rows alike -/

/-- Whether the tokens of the form have the same shapes in every row. -/
def Form.isSteady : Form → Bool
  | .zero _ => false
  | .spelled k => !k.isReserved
  | _ => true

theorem Cursor.Alike.of_kindsAhead {c d : Cursor} {kinds : List TokenKind}
    (hc : KindsAhead kinds c) (hd : KindsAhead kinds d) (inside : .endOfFile ∉ kinds)
    (rest : (c.advances kinds.length).Alike (d.advances kinds.length)) : c.Alike d := by
  induction kinds generalizing c d with
  | nil => exact rest
  | cons k kinds ih =>
    obtain ⟨first, hc⟩ := hc
    obtain ⟨first', hd⟩ := hd
    have other : k ≠ .endOfFile := fun h => inside (h ▸ List.mem_cons_self ..)
    exact .next (by rw [first, first']) (isEnd_of_kind first other)
      (ih hc hd (fun h => inside (List.mem_cons_of_mem _ h)) rest)

theorem Operator.endOfFile_not_mem_kinds (o : Operator) : .endOfFile ∉ o.kinds := by
  cases o <;> decide

theorem Form.Reads.alike {form : Form} {c c' d d' : Cursor} (steady : form.isSteady = true)
    (h : form.Reads .source c c') (h' : form.Reads .text d d') (rest : c'.Alike d') :
    c.Alike d := by
  cases form with
  | kind k =>
    obtain ⟨kinds, inside, rfl⟩ := h
    obtain ⟨kinds', _, rfl⟩ := h'
    exact .next (TokenKind.shape_eq_of_blur_eq (kinds.trans kinds'.symm)) inside rest
  | word text =>
    obtain ⟨written, kinds, rfl⟩ := h
    obtain ⟨_, kinds', rfl⟩ := h'
    exact .next (by rw [kinds, kinds']) (isEnd_of_writtenWord? written) rest
  | spelled k =>
    obtain ⟨spells, rfl⟩ := h
    obtain ⟨spells', rfl⟩ := h'
    have contextual : k.isReserved = false := by simpa [Form.isSteady] using steady
    refine .next ?_ ?_ rest
    · rw [TokenKind.shape_of_spells spells contextual, TokenKind.shape_of_spells spells' contextual]
    · cases hk : c.current.kind <;> simp_all [TokenKind.spells, Token.isEnd]
  | operator o =>
    obtain ⟨n, ahead, rfl⟩ := h
    obtain ⟨n', ahead', rfl⟩ := h'
    obtain ⟨kinds, rfl⟩ := operatorAhead?_kinds ahead
    obtain ⟨kinds', rfl⟩ := operatorAhead?_kinds ahead'
    exact .of_kindsAhead kinds kinds' o.endOfFile_not_mem_kinds rest
  | zero k => cases steady

theorem Stands.alike {forms : List Form} {c c' d d' : Cursor}
    (steady : ∀ form ∈ forms, form.isSteady = true) (h : Stands .source forms c c')
    (h' : Stands .text forms d d') (rest : c'.Alike d') : c.Alike d := by
  induction forms generalizing c d with
  | nil =>
    cases h
    cases h'
    exact rest
  | cons form forms ih =>
    obtain ⟨c₁, first, more⟩ := h
    obtain ⟨d₁, first', more'⟩ := h'
    obtain ⟨head, tail⟩ := List.forall_mem_cons.mp steady
    exact first.alike head first' (ih tail more more')

/-! ## Echoes -/

namespace Parser

variable {α β γ δ ε σ : Type} {e e₀ e₁ e₂ : Edge} {read : List Form} {c : Cursor}

/-- What `p` reads at `c` is read by `q` from every row in which the same forms stand. The forms
`read` have been read before; with them, what is read are the forms of the result. `view` is what
the two results have in common. -/
def EchoesAt (e₀ e₁ : Edge) (read : List Form) (c : Cursor) (p q : Parser α)
    (forms : α → List Form) (view : α → γ) : Prop :=
  c.Sound → ∀ ⦃x c'⦄, p c = .ok (x, c') →
    ∃ F, read ++ F = forms x ∧ Stands .source F c c' ∧
      ∀ ⦃d d'⦄, d.Sorted → Stands .text F d d' → e₁.Meets c' d' →
        e₀.Meets c d ∧ ∃ y, q d = .ok (y, d') ∧ view x = view y

/-- What the parser reads anywhere in a source it reads again from every row in which the forms of
the result stand. -/
abbrev Echoes (e₀ e₁ : Edge) (p : Parser α) (forms : α → List Form) (view : α → γ) : Prop :=
  ∀ c, EchoesAt e₀ e₁ [] c p p forms view

/-! ### The forms of lists and loops -/

/-- What has been read when a step is over. -/
def Turn.forms (stateForms : σ → List Form) (result : β → List Form) : Turn σ β → List Form
  | .again state => stateForms state
  | .done found => result found

/-- The forms of something that may be missing. -/
def optionForms (forms : α → List Form) : Option α → List Form
  | some x => forms x
  | none => []

/-- The forms of items that stand behind a comma each. -/
def behindCommas (forms : α → List Form) (xs : List α) : List Form :=
  xs.flatMap fun x => Form.mark .comma :: forms x

theorem commas_cons {forms : α → List Form} (x : α) (xs : List α) :
    Form.commas ((x :: xs).map forms) = forms x ++ behindCommas forms xs := by
  simp [Form.commas, behindCommas, List.flatMap_map]

/-- The parts of a dotted name, each behind its point. -/
def behindPoints (form : Ident → Form) (parts : List Ident) : List Form :=
  parts.flatMap fun i => [Form.mark .dot, form i]

namespace EchoesAt

variable {p q : Parser α} {forms : α → List Form} {view : α → γ}

/-- The edges are weakened where the parser begins and strengthened where it ends. -/
theorem weaken (h : EchoesAt e₀ e₁ read c p q forms view) {e₀' e₁' : Edge}
    (begins : ∀ {d}, e₀.Meets c d → e₀'.Meets c d)
    (ends : ∀ {c d}, e₁'.Meets c d → e₁.Meets c d) :
    EchoesAt e₀' e₁' read c p q forms view := by
  intro sound x c' run
  obtain ⟨F, all, stands, again⟩ := h sound run
  refine ⟨F, all, stands, fun d d' sorted stands' meets => ?_⟩
  obtain ⟨begin, y, run', same⟩ := again sorted stands' (ends meets)
  exact ⟨begins begin, y, run', same⟩

/-- The parser may begin where a value may. -/
theorem atValue (h : EchoesAt e₀ e₁ read c p q forms view) :
    EchoesAt .value e₁ read c p q forms view :=
  h.weaken (fun meets => meets.value) id

/-- The edges may be weakened all the way where the parser begins. -/
theorem begin (h : EchoesAt .tight e₁ read c p q forms view) (e : Edge) :
    EchoesAt e e₁ read c p q forms view :=
  h.weaken (fun meets => meets.of_tight) id

/-- The edge may be strengthened where the parser ends. -/
theorem stop (h : EchoesAt e₀ .loose read c p q forms view) :
    EchoesAt e₀ .tight read c p q forms view :=
  h.weaken id fun meets => meets.1

theorem pure {x y : α} (h : read = forms x) (same : view x = view y) :
    EchoesAt e e read c (pure x) (pure y) forms view := by
  intro _ z c' run
  cases pure_ok.mp run
  refine ⟨[], by simpa using h, rfl, ?_⟩
  rintro d _ _ rfl meets
  exact ⟨meets, y, rfl, same⟩

theorem fail {expected : List String} : EchoesAt e₀ e₁ read c (fail expected) q forms view := by
  intro _ x c' run
  cases fail_ok.mp run

theorem throw {error : ParseError} : EchoesAt e₀ e₁ read c (throw error) q forms view := by
  intro _ x c' run
  cases throw_ok.mp run

/-- A parser behind forms that do not belong to its result. -/
theorem behind (before : List Form) (h : EchoesAt e₀ e₁ read c p q forms view) :
    EchoesAt e₀ e₁ (before ++ read) c p q (fun x => before ++ forms x) view := by
  intro sound x c' run
  obtain ⟨F, all, rest⟩ := h sound run
  exact ⟨F, by rw [List.append_assoc, all], rest⟩

/-- One parser behind another, where what the second one does may depend on the run of the first.
What the second one reads comes behind the forms of the first. -/
theorem bindRun {f g : α → Parser β} {forms' : β → List Form} {view' : β → δ}
    (first : EchoesAt e₀ e₁ read c p q forms view)
    (rest : ∀ {x y c₁}, p c = .ok (x, c₁) → view x = view y →
      EchoesAt e₁ e₂ (forms x) c₁ (f x) (g y) forms' view') :
    EchoesAt e₀ e₂ read c (p >>= f) (q >>= g) forms' view' := by
  intro sound z c' run
  obtain ⟨x, c₁, run₁, run₂⟩ := bind_ok.mp run
  obtain ⟨F₁, all₁, stands₁, again₁⟩ := first sound run₁
  have sound₁ := stands₁.upto.sound sound
  obtain ⟨F₂, all₂, stands₂, again₂⟩ := rest (y := x) run₁ rfl sound₁ run₂
  have all : read ++ (F₁ ++ F₂) = forms' z := by rw [← all₂, ← all₁, List.append_assoc]
  refine ⟨F₁ ++ F₂, all, stands₁.append stands₂, fun d d' sorted stands meets => ?_⟩
  obtain ⟨d₁, standsD₁, standsD₂⟩ := stands_append.mp stands
  have sorted₁ := standsD₁.upto.sorted sorted
  have middle := (again₂ sorted₁ standsD₂ meets).1
  obtain ⟨begin, y, runY, same⟩ := again₁ sorted standsD₁ middle
  -- What follows depends on the second result, the forms that it reads do not.
  obtain ⟨F, all', _, again⟩ := rest run₁ same sound₁ run₂
  obtain rfl : F = F₂ := List.append_cancel_left (all'.trans all₂.symm)
  obtain ⟨_, z', runZ, same'⟩ := again sorted₁ standsD₂ meets
  exact ⟨begin, z', bind_ok.mpr ⟨y, d₁, runY, runZ⟩, same'⟩

theorem bindOn {f g : α → Parser β} {forms' : β → List Form} {view' : β → δ}
    (first : EchoesAt e₀ e₁ read c p q forms view)
    (rest : ∀ {x y c₁}, view x = view y →
      EchoesAt e₁ e₂ (forms x) c₁ (f x) (g y) forms' view') :
    EchoesAt e₀ e₂ read c (p >>= f) (q >>= g) forms' view' :=
  first.bindRun fun _ same => rest same

theorem bind {f g : α → Parser β} {forms' : β → List Form} {view' : β → δ}
    (first : EchoesAt e₀ e₁ [] c p q forms view)
    (rest : ∀ {x y c₁}, view x = view y →
      EchoesAt e₁ e₂ (read ++ forms x) c₁ (f x) (g y) forms' view') :
    EchoesAt e₀ e₂ read c (p >>= f) (q >>= g) forms' view' := by
  have first := first.behind read
  rw [List.append_nil] at first
  exact first.bindOn rest

theorem map {f g : α → β} {forms' : β → List Form} {view' : β → δ}
    (h : EchoesAt e₀ e₁ read c p q forms view) (whole : ∀ x, forms x = forms' (f x))
    (same : ∀ {x y}, view x = view y → view' (f x) = view' (g y)) :
    EchoesAt e₀ e₁ read c (f <$> p) (g <$> q) forms' view' := by
  intro sound z c' run
  obtain ⟨x, c₁, run, result⟩ := map_ok.mp run
  cases result
  obtain ⟨F, all, stands, again⟩ := h sound run
  refine ⟨F, all.trans (whole x), stands, fun d d' sorted stands' meets => ?_⟩
  obtain ⟨begin, y, run', same'⟩ := again sorted stands' meets
  exact ⟨begin, g y, map_ok.mpr ⟨y, d', run', rfl⟩, same same'⟩

/-- What has been read may be written in another way. -/
theorem reread {read' : List Form} (h : EchoesAt e₀ e₁ read c p q forms view)
    (same : read = read') : EchoesAt e₀ e₁ read' c p q forms view := same ▸ h

/-- The forms may be written in another way for the results that there are. -/
theorem reform {forms' : α → List Form} (h : EchoesAt e₀ e₁ read c p q forms view)
    (same : ∀ {x c'}, p c = .ok (x, c') → forms x = forms' x) :
    EchoesAt e₀ e₁ read c p q forms' view := by
  intro sound x c' run
  obtain ⟨F, all, rest⟩ := h sound run
  exact ⟨F, by rw [all, same run], rest⟩

/-- A parser whose result stands for more than has been read before reads tokens. -/
theorem before (h : EchoesAt e₀ e₁ read c p q forms view) {x : α} {c' : Cursor}
    (run : p c = .ok (x, c')) (sound : c.Sound) (more : forms x ≠ read) : c.Before c' := by
  obtain ⟨F, all, stands, _⟩ := h sound run
  refine stands.before ?_
  rintro rfl
  exact more (by rw [← all, List.append_nil])

/-- Parsers that do here what two others do. -/
theorem instead {p' q' : Parser α} (h : EchoesAt e₀ e₁ read c p' q' forms view)
    (hp : ∀ {r}, p c = .ok r → p' c = .ok r)
    (hq : ∀ {d r}, e₀.Meets c d → q' d = .ok r → q d = .ok r) :
    EchoesAt e₀ e₁ read c p q forms view := by
  intro sound x c' run
  obtain ⟨F, all, stands, again⟩ := h sound (hp run)
  refine ⟨F, all, stands, fun d d' sorted stands' meets => ?_⟩
  obtain ⟨begin, y, run', same⟩ := again sorted stands' meets
  exact ⟨begin, y, hq begin run', same⟩

/-! ### Looking at the row -/

/-- A parser that depends on what it sees of the row, where `agree` says what both rows show. -/
theorem depends (look : Cursor → δ) {g : δ → Parser α} {R : δ → Prop} (here : R (look c))
    (agree : ∀ {d}, e₀.Meets c d → R (look d))
    (h : ∀ {k}, R k → EchoesAt e₀ e₁ read c p (g k) forms view) :
    EchoesAt e₀ e₁ read c p (fun d => g (look d) d) forms view := by
  intro sound x c' run
  obtain ⟨F, all, stands, again⟩ := h here sound run
  refine ⟨F, all, stands, fun d d' sorted stands' meets => ?_⟩
  obtain ⟨begin, _⟩ := again sorted stands' meets
  obtain ⟨F', all', _, again'⟩ := h (agree begin) sound run
  obtain rfl : F' = F := List.append_cancel_left (all'.trans all.symm)
  exact again' sorted stands' meets

/-- A choice by what lies ahead. -/
theorem getIf {look : Cursor → Bool} {p p' q q' : Parser α}
    (agree : ∀ {d}, e₀.Meets c d → look c = look d)
    (yes : look c = true → EchoesAt e₀ e₁ read c p q forms view)
    (no : look c = false → EchoesAt e₀ e₁ read c p' q' forms view) :
    EchoesAt e₀ e₁ read c (get >>= fun d => if look d then p else p')
      (get >>= fun d => if look d then q else q') forms view := by
  refine depends (p := if look c then p else p') (g := fun b => if b then q else q') look
    (R := fun b => b = look c) rfl (fun meets => (agree meets).symm) ?_
  rintro _ rfl
  cases found : look c with
  | true => exact yes found
  | false => exact no found

/-- Whether a token and a second one lie ahead. -/
theorem pair {f g : Bool → TokenKind → Parser α} {first : TokenKind} (second : TokenKind → Bool)
    (agree : ∀ {d}, e₀.Meets c d →
      ((c.current.kind = first ∧ second (c.peek 1).kind = true) ↔
        (d.current.kind = first ∧ second (d.peek 1).kind = true)))
    (h : ∀ {a k}, (a && second k) = (c.current.kind == first && second (c.peek 1).kind) →
      EchoesAt e₀ e₁ read c (f (c.current.kind == first) (c.peek 1).kind) (g a k) forms view) :
    EchoesAt e₀ e₁ read c (Parser.isAt first >>= fun a => kindAt 1 >>= fun k => f a k)
      (Parser.isAt first >>= fun a => kindAt 1 >>= fun k => g a k) forms view := by
  refine depends (p := f (c.current.kind == first) (c.peek 1).kind)
    (g := fun seen => g seen.1 seen.2) (fun d => (d.current.kind == first, (d.peek 1).kind))
    (R := fun seen => (seen.1 && second seen.2) =
      (c.current.kind == first && second (c.peek 1).kind)) rfl (fun {d} meets => ?_) h
  rw [Bool.eq_iff_iff]
  simpa using (agree meets).symm

variable {f g : TokenKind → Parser α}

theorem kind (loose : e₀ ≠ .value)
    (h : ∀ {k}, c.current.kind.shape = k.shape →
      EchoesAt e₀ e₁ read c (f c.current.kind) (g k) forms view) :
    EchoesAt e₀ e₁ read c (kind >>= f) (kind >>= g) forms view := by
  refine depends (p := f c.current.kind) (fun d => d.current.kind)
    (R := fun k => c.current.kind.shape = k.shape) rfl (fun meets => ?_) h
  cases e₀ with
  | value => exact absurd rfl loose
  | loose => exact meets.shape
  | tight => exact meets.1.shape

theorem isAt {f g : Bool → Parser α} {k : TokenKind} (fixed : k.isFixed = true)
    (other : k.startsNumber = false)
    (yes : c.current.kind = k → EchoesAt e₀ e₁ read c (f true) (g true) forms view)
    (no : c.current.kind ≠ k → EchoesAt e₀ e₁ read c (f false) (g false) forms view) :
    EchoesAt e₀ e₁ read c (isAt k >>= f) (isAt k >>= g) forms view := by
  refine depends (p := f (c.current.kind == k)) (fun d => d.current.kind == k)
    (R := fun b => b = (c.current.kind == k)) rfl (fun {d} meets => ?_) ?_
  · have agree := meets.kind_iff fixed other
    rw [Bool.eq_iff_iff, beq_iff_eq, beq_iff_eq]
    exact agree.symm
  · rintro _ rfl
    by_cases hk : c.current.kind = k
    · rw [beq_iff_eq.mpr hk]
      exact yes hk
    · rw [beq_eq_false_iff_ne.mpr hk]
      exact no hk

/-- The edge that a token of the kind leaves behind it. -/
def edgeBehind (k : TokenKind) : Edge := if k.opensValue then .value else .loose

theorem edgeBehind_eq_value {k : TokenKind} (h : edgeBehind k = .value) :
    k.opensValue = true := by
  unfold edgeBehind at h
  split at h
  · assumption
  · cases h

/-- A token under the cursor, passed over. -/
theorem token {k : TokenKind} (hk : c.current.kind = k) (inside : k ≠ .endOfFile)
    (other : e₀ = .tight → k ≠ .operator .greater)
    (h : EchoesAt (edgeBehind k) e₁ (read ++ [.kind k]) c.advance p q forms view) :
    EchoesAt e₀ e₁ read c (advance >>= fun _ => p) (advance >>= fun _ => q) forms view := by
  intro sound x c' run
  obtain ⟨F, all, stands, again⟩ := h sound.advance run
  have inside := isEnd_of_kind hk inside
  have all : read ++ .kind k :: F = forms x := by rw [← all, List.append_assoc]; rfl
  refine ⟨.kind k :: F, all, ⟨c.advance, ⟨by rw [hk], inside, rfl⟩, stands⟩, ?_⟩
  rintro d d' sorted ⟨_, ⟨kinds, _, rfl⟩, stands'⟩ meets
  obtain ⟨begin, y, run', same⟩ := again sorted.advance stands' meets
  have shape := TokenKind.shape_eq_of_blur_eq kinds
  refine ⟨begin.before (by rw [hk, shape]) inside (fun he => ?_) (by rwa [hk]), y, run', same⟩
  rw [hk]
  exact edgeBehind_eq_value he

/-- A token under the cursor that says with its value how the parsers go on. -/
theorem leaf {f g : Token → Parser α} {k : TokenKind} (hk : c.current.kind = k)
    (inside : k ≠ .endOfFile) (other : e₀ = .tight → k ≠ .operator .greater)
    (hp : ∀ {r}, p c = .ok r → f c.current c.advance = .ok r)
    (hq : ∀ {d r}, d.current.kind.blur .erasing = k.blur .erasing →
      g d.current d.advance = .ok r → q d = .ok r)
    (h : ∀ {t : Token}, t.kind.blur .erasing = k.blur .erasing →
      EchoesAt (edgeBehind k) e₁ (read ++ [.kind k]) c.advance (f c.current) (g t) forms view) :
    EchoesAt e₀ e₁ read c p q forms view := by
  intro sound x c' run
  have run := hp run
  obtain ⟨F, all, stands, _⟩ := h (t := c.current) (by rw [hk]) sound.advance run
  have inside := isEnd_of_kind hk inside
  have all : read ++ .kind k :: F = forms x := by rw [← all, List.append_assoc]; rfl
  refine ⟨.kind k :: F, all, ⟨c.advance, ⟨by rw [hk], inside, rfl⟩, stands⟩, ?_⟩
  rintro d d' sorted ⟨_, ⟨kinds, _, rfl⟩, stands'⟩ meets
  obtain ⟨F', all', _, again⟩ := h kinds sound.advance run
  obtain rfl : F' = F := by simpa [← all] using all'
  obtain ⟨begin, y, run', same⟩ := again sorted.advance stands' meets
  have shape := TokenKind.shape_eq_of_blur_eq kinds
  refine ⟨begin.before (by rw [hk, shape]) inside (fun he => ?_) (by rwa [hk]), y,
    hq kinds run', same⟩
  rw [hk]
  exact edgeBehind_eq_value he

theorem next {f g : Token → Parser α} {k : TokenKind} (hk : c.current.kind = k)
    (inside : k ≠ .endOfFile) (other : e₀ = .tight → k ≠ .operator .greater)
    (h : ∀ {s t}, EchoesAt (edgeBehind k) e₁ (read ++ [.kind k]) c.advance (f s) (g t) forms view) :
    EchoesAt e₀ e₁ read c (next >>= f) (next >>= g) forms view :=
  leaf (f := f) (g := g) hk inside other id (fun _ run => run) fun _ => h

theorem expect {f g : Span → Parser α} {k : TokenKind} (fixed : k.isFixed = true)
    (inside : k ≠ .endOfFile) (other : e₀ = .tight → k ≠ .operator .greater)
    (h : ∀ {s t}, EchoesAt (edgeBehind k) e₁ (read ++ [.kind k]) c.advance (f s) (g t) forms view) :
    EchoesAt e₀ e₁ read c (expect k >>= f) (expect k >>= g) forms view := by
  intro sound x c' run
  obtain ⟨hk, run⟩ := expect_bind_ok.mp run
  have first : EchoesAt .loose e₁ read c (advance >>= fun _ => f c.current.span)
      (advance >>= fun _ => g default) forms view := token hk inside (by simp) h
  obtain ⟨F, all, stands, again⟩ := first sound run
  refine ⟨F, all, stands, fun d d' sorted standsD meets => ?_⟩
  have alike : c.Alike d := (again sorted standsD meets).1
  obtain ⟨F', all', _, again'⟩ :=
    token hk inside other (h (s := c.current.span) (t := d.current.span)) sound run
  obtain rfl : F' = F := List.append_cancel_left (all'.trans all.symm)
  obtain ⟨begin, y, run', same⟩ := again' sorted standsD meets
  exact ⟨begin, y, expect_bind_ok.mpr ⟨alike.kind hk fixed, run'⟩, same⟩

theorem accept {f g : Bool → Parser α} {k : TokenKind} (fixed : k.isFixed = true)
    (number : k.startsNumber = false) (inside : k ≠ .endOfFile)
    (other : e₀ = .tight → k ≠ .operator .greater)
    (yes : c.current.kind = k →
      EchoesAt (edgeBehind k) e₁ (read ++ [.kind k]) c.advance (f true) (g true) forms view)
    (no : c.current.kind ≠ k → EchoesAt e₀ e₁ read c (f false) (g false) forms view) :
    EchoesAt e₀ e₁ read c (accept k >>= f) (accept k >>= g) forms view := by
  intro sound x c' run
  rcases accept_bind_ok.mp run with ⟨hk, run⟩ | ⟨hk, run⟩
  · obtain ⟨F, all, stands, again⟩ := token hk inside other (yes hk) sound run
    refine ⟨F, all, stands, fun d d' sorted standsD meets => ?_⟩
    obtain ⟨begin, y, run', same⟩ := again sorted standsD meets
    have hd := (begin.kind_iff fixed number).mp hk
    exact ⟨begin, y, accept_bind_ok.mpr (.inl ⟨hd, run'⟩), same⟩
  · obtain ⟨F, all, stands, again⟩ := no hk sound run
    refine ⟨F, all, stands, fun d d' sorted standsD meets => ?_⟩
    obtain ⟨begin, y, run', same⟩ := again sorted standsD meets
    have hd := mt (begin.kind_iff fixed number).mpr hk
    exact ⟨begin, y, accept_bind_ok.mpr (.inr ⟨hd, run'⟩), same⟩

theorem here {f g : Span → Parser α}
    (h : ∀ {s t}, EchoesAt e₀ e₁ read c (f s) (g t) forms view) :
    EchoesAt e₀ e₁ read c (here >>= f) (here >>= g) forms view :=
  depends (p := f c.current.span) (fun d => d.current.span) (R := fun _ => True) trivial (fun _ => trivial) fun _ => h

theorem spanFrom {f g : Span → Parser α} {start start' : Span}
    (h : ∀ {s t}, EchoesAt e₀ e₁ read c (f s) (g t) forms view) :
    EchoesAt e₀ e₁ read c (spanFrom start >>= f) (spanFrom start' >>= g) forms view := by
  intro sound x c' run
  obtain ⟨F, all, stands, again⟩ :=
    h (s := c.spanFrom start) (t := default) sound (spanFrom_bind_ok.mp run)
  refine ⟨F, all, stands, fun d d' sorted standsD meets => ?_⟩
  obtain ⟨F', all', _, again'⟩ :=
    h (s := c.spanFrom start) (t := d.spanFrom start') sound (spanFrom_bind_ok.mp run)
  obtain rfl : F' = F := List.append_cancel_left (all'.trans all.symm)
  obtain ⟨begin, y, run', same⟩ := again' sorted standsD meets
  exact ⟨begin, y, spanFrom_bind_ok.mpr run', same⟩

/-! ### Loops -/

variable {step step' : σ → Parser (Turn σ β)} {result : β → List Form} {resultView : β → ε}

/-- A loop whose steps are echoed is echoed. A step that asks to be run again has read a token of
the source, so it reads one of the other row as well, where the loop is not stopped either. -/
theorem iterate (stateForms : σ → List Form) (stateView : σ → δ)
    (h : ∀ {s t c}, stateView s = stateView t →
      EchoesAt e e (stateForms s) c (step s) (step' t) (Turn.forms stateForms result)
        (Turn.map stateView resultView))
    (reads : ∀ {s c s' c₁}, c.Sound → step s c = .ok (.again s', c₁) → c.Before c₁)
    {s t : σ} (same : stateView s = stateView t) :
    EchoesAt e e (stateForms s) c (iterate step s) (iterate step' t) result resultView := by
  intro sound x c' run
  suffices echo : ∃ F, stateForms s ++ F = result x ∧ Stands .source F c c' ∧
      ∀ {d d' : Cursor}, d.Sorted → Stands .text F d d' → e.Meets c' d' →
        e.Meets c d ∧ ∀ {t}, stateView s = stateView t → ∀ limit, d.remaining < limit →
          ∃ y, iterateFor step' limit t d = .ok (y, d') ∧ resultView x = resultView y by
    obtain ⟨F, all, stands, again⟩ := echo
    refine ⟨F, all, stands, fun d d' sorted standsD meets => ?_⟩
    obtain ⟨begin, goes⟩ := again sorted standsD meets
    exact ⟨begin, goes same _ (Nat.lt_succ_self _)⟩
  have loop := iterates_of_iterate run
  clear run same
  induction loop with
  | @done s c x c' run =>
    obtain ⟨F, all, stands, again⟩ := h (t := s) rfl sound run
    refine ⟨F, all, stands, fun {d d'} sorted standsD meets => ?_⟩
    refine ⟨(again sorted standsD meets).1, fun {t} same limit enough => ?_⟩
    obtain ⟨limit, rfl⟩ : ∃ k, limit = k + 1 := ⟨limit - 1, by omega⟩
    obtain ⟨F', all', _, again'⟩ := h same sound run
    obtain rfl : F' = F := List.append_cancel_left (all'.trans all.symm)
    obtain ⟨_, turn, run', same'⟩ := again' sorted standsD meets
    cases turn with
    | again t' => cases same'
    | done y =>
      refine ⟨y, ?_, Turn.done.inj same'⟩
      rw [iterateFor, bind_ok]
      exact ⟨_, _, run', rfl⟩
  | @again s c s' c₁ x c' run rest ih =>
    obtain ⟨F₁, all₁, stands₁, again₁⟩ := h (t := s) rfl sound run
    obtain ⟨F₂, all₂, stands₂, again₂⟩ := ih (stands₁.upto.sound sound)
    have all : stateForms s ++ (F₁ ++ F₂) = result x := by
      rw [← all₂, ← List.append_assoc, all₁]
      rfl
    refine ⟨F₁ ++ F₂, all, stands₁.append stands₂, fun {d d'} sorted standsD meets => ?_⟩
    obtain ⟨d₁, standsD₁, standsD₂⟩ := stands_append.mp standsD
    obtain ⟨middle, goes⟩ := again₂ (standsD₁.upto.sorted sorted) standsD₂ meets
    refine ⟨(again₁ sorted standsD₁ middle).1, fun {t} same limit enough => ?_⟩
    obtain ⟨limit, rfl⟩ : ∃ k, limit = k + 1 := ⟨limit - 1, by omega⟩
    obtain ⟨F, all', _, again'⟩ := h same sound run
    obtain rfl : F = F₁ := List.append_cancel_left (all'.trans all₁.symm)
    obtain ⟨_, turn, run', same'⟩ := again' sorted standsD₁ middle
    have some : F ≠ [] := by
      rintro rfl
      have moved := (reads sound run).position
      cases stands₁
      omega
    have moved := standsD₁.before some
    have closer : d₁.remaining < d.remaining := by
      have := d.inBounds
      have := moved.position
      unfold Cursor.remaining
      rw [moved.tokens]
      omega
    cases turn with
    | done y => cases same'
    | again t' =>
      obtain ⟨y, loop, same''⟩ := goes (Turn.again.inj same') limit (by omega)
      refine ⟨y, ?_, same''⟩
      rw [iterateFor, bind_ok]
      exact ⟨_, _, run', loop⟩

variable {item item' : Parser α}

/-- Items are read one after another up to a token that none of them begins with. -/
theorem itemsUntil {k : TokenKind} (fixed : k.isFixed = true)
    (number : k.startsNumber = false)
    (h : ∀ {c}, EchoesAt .loose .loose [] c item item' forms view)
    (reads : ∀ {c x c'}, c.Sound → item c = .ok (x, c') → c.Before c') :
    EchoesAt .loose .loose [] c (itemsUntil k item) (itemsUntil k item')
      (fun xs => xs.flatMap forms) (List.map view) := by
  refine iterate (fun xs => xs.reverse.flatMap forms) (List.map view) (s := [])
    (fun {s t c} same => ?_) (fun {s c s' c₁} sound run => ?_) rfl
  · refine isAt fixed number (fun _ => pure rfl ?_) (fun _ => ?_)
    · simp only [Turn.map, List.map_reverse, same]
    · refine bind h fun {x y c₁} samex => pure (by simp [Turn.forms]) ?_
      simp only [Turn.map, List.map_cons, same, samex]
  · rcases untilStep_ok.mp run with ⟨_, run⟩ | ⟨_, x, _, run, turn⟩
    · cases run
    · cases turn
      exact reads sound run

/-- Items are read one after another as long as there is one. -/
theorem itemsWhile {item item' : Parser (Option α)}
    (h : ∀ {c}, EchoesAt .loose .loose [] c item item' (optionForms forms) (Option.map view))
    (reads : ∀ {c x c'}, c.Sound → item c = .ok (some x, c') → c.Before c') :
    EchoesAt .loose .loose [] c (itemsWhile item) (itemsWhile item')
      (fun xs => xs.flatMap forms) (List.map view) := by
  refine iterate (fun xs => xs.reverse.flatMap forms) (List.map view) (s := []) ?_ ?_ rfl
  · intro s t c same
    refine bind h fun {x y c₁} samex => ?_
    cases x with
    | some x =>
      cases y with
      | none => cases samex
      | some y =>
        have samex : view x = view y := Option.some.inj samex
        refine pure (by simp [Turn.forms, optionForms]) ?_
        simp only [Turn.map, List.map_cons, same, samex]
    | none =>
      cases y with
      | some y => cases samex
      | none =>
        refine pure (by simp [Turn.forms, optionForms]) ?_
        simp only [Turn.map, List.map_reverse, same]
  · intro s c s' c₁ sound run
    rcases whileStep_ok.mp run with ⟨x, _, run, turn⟩ | ⟨_, run, turn⟩
    · cases turn
      exact reads sound run
    · cases turn

/-- Items behind commas are read one after another. -/
theorem commaSeparatedFrom {a b : α}
    (h : ∀ {c}, EchoesAt .value e [] c item item' forms view) (same : view a = view b) :
    EchoesAt e e (forms a) c (commaSeparatedFrom a item) (commaSeparatedFrom b item')
      (fun xs => Form.commas (xs.map forms)) (List.map view) := by
  -- The loop keeps the items last first; the first of all is not behind a comma.
  have loop : EchoesAt e e (behindCommas forms [a]) c (Parser.commaSeparatedFrom a item)
      (Parser.commaSeparatedFrom b item') (behindCommas forms) (List.map view) := by
    refine iterate (fun xs => behindCommas forms xs.reverse) (List.map view) (s := [a])
      (t := [b]) ?_ ?_ (by simp [same])
    · intro s t c same
      refine accept rfl rfl (by simp) (fun _ => by simp) (fun _ => ?_) (fun _ => pure rfl ?_)
      · refine bind h fun {x y c₁} samex => pure (by simp [Turn.forms, behindCommas]) ?_
        simp only [Turn.map, List.map_cons, same, samex]
      · simp only [Turn.map, List.map_reverse, same]
    · intro s c s' c₁ sound run
      rcases commaStep_ok.mp run with ⟨comma, x, _, run, turn⟩ | ⟨_, run⟩
      · cases turn
        obtain ⟨_, _, stands, _⟩ := h sound.advance run
        exact (before_of_kind comma (by simp)).trans_upto stands.upto
      · cases run
  intro sound xs c' run
  obtain ⟨more, rfl, _⟩ := commaSeparatedFrom_items run
  obtain ⟨F, all, stands, again⟩ := loop sound run
  refine ⟨F, ?_, stands, again⟩
  have all : behindCommas forms [a] ++ F = behindCommas forms (a :: more) := all
  have all : forms a ++ F = forms a ++ behindCommas forms more := by
    simpa [behindCommas] using all
  exact all.trans (commas_cons a more).symm

/-- One or more items with commas between them. -/
theorem commaSeparated (h : ∀ {c}, EchoesAt e₀ e [] c item item' forms view) :
    EchoesAt e₀ e [] c (commaSeparated item) (commaSeparated item')
      (fun xs => Form.commas (xs.map forms)) (List.map view) :=
  bind h fun same => commaSeparatedFrom (h.weaken (fun meets => meets.value) id) same

end EchoesAt

/-! ## Names -/

theorem identifier_echoes :
    Echoes .tight .loose identifier (fun i => [Form.ident i]) (Ident.blur .erasing) := by
  intro c sound x c' run
  obtain ⟨text, name, run⟩ := identifier_ok.mp run
  cases run
  have inside := isEnd_of_kind name (by simp)
  refine ⟨[.kind (.name text)], rfl, stands_single.mpr ⟨by rw [name], inside, rfl⟩, ?_⟩
  intro d d' sorted stands meets
  obtain ⟨kinds, _, rfl⟩ := stands_single.mp stands
  have name' : d.current.kind = .name text := by
    cases hd : d.current.kind <;> simp_all [TokenKind.blur, Blur.erasing]
  have shape : c.current.kind.shape = d.current.kind.shape := by rw [name, name']
  refine ⟨Edge.Meets.before meets shape inside (by simp) fun _ => by simp [name], ?_⟩
  exact ⟨⟨text, d.current.span⟩, identifier_ok.mpr ⟨text, name', rfl⟩, rfl⟩

theorem memberName_echoes :
    Echoes .tight .loose memberName (fun i => [.word i.value]) (Ident.blur .erasing) := by
  intro c sound x c' run
  obtain ⟨text, word, run⟩ := memberName_ok.mp run
  cases run
  have inside := isEnd_of_writtenWord? word
  have kind := sound.current.kind_eq_wordKind word
  refine ⟨[.word text], rfl, stands_single.mpr ⟨word, kind, rfl⟩, ?_⟩
  intro d d' sorted stands meets
  obtain ⟨word', kind', rfl⟩ := stands_single.mp stands
  have shape : c.current.kind.shape = d.current.kind.shape := by rw [kind, kind']
  have other : c.current.kind ≠ .operator .greater := by
    rw [kind]
    unfold wordKind
    split <;> simp
  refine ⟨Edge.Meets.before meets shape inside (by simp) fun _ => other, ?_⟩
  exact ⟨⟨text, d.current.span⟩, memberName_ok.mpr ⟨text, word', rfl⟩, rfl⟩

/-- A contextual keyword, in whatever letter case. -/
theorem expectWord_echoes {k : Keyword} (contextual : k.isReserved = false) :
    Echoes .tight .loose (expectWord k) (fun _ => [.spelled k]) fun _ => () := by
  intro c sound x c' run
  obtain ⟨spells, run⟩ := expectWord_ok.mp run
  cases run
  refine ⟨[.spelled k], rfl, stands_single.mpr ⟨spells, rfl⟩, ?_⟩
  intro d d' sorted stands meets
  have inside := Form.Reads.before (stands_single.mp stands)
  obtain ⟨spells', rfl⟩ := stands_single.mp stands
  have shape : c.current.kind.shape = d.current.kind.shape := by
    rw [TokenKind.shape_of_spells spells contextual, TokenKind.shape_of_spells spells' contextual]
  have name : ∃ w, c.current.kind = .name w := by
    cases hk : c.current.kind <;> simp_all [TokenKind.spells]
  obtain ⟨w, name⟩ := name
  refine ⟨Edge.Meets.before meets shape (isEnd_of_kind name (by simp)) (by simp) fun _ => by simp [name], ?_⟩
  exact ⟨d.current.span, expectWord_ok.mpr ⟨spells', rfl⟩, rfl⟩

theorem parts_echoes {x y : Ident} (same : Ident.blur .erasing x = Ident.blur .erasing y) (c : Cursor) :
    EchoesAt .loose .loose [Form.ident x] c (iterate partStep [x]) (iterate partStep [y])
      (fun parts => QualifiedName.forms ⟨default, parts⟩) (List.map (Ident.blur .erasing)) := by
  have loop : EchoesAt .loose .loose (behindPoints (fun i => .word i.value) [x]) c
      (iterate partStep [x]) (iterate partStep [y]) (behindPoints fun i => .word i.value)
      (List.map (Ident.blur .erasing)) := by
    refine .iterate (fun parts => behindPoints (fun i => .word i.value) parts.reverse)
      (List.map (Ident.blur .erasing)) (s := [x]) (t := [y]) ?_ ?_ (by simp [same])
    · intro s t c same
      refine .accept rfl rfl (by simp) (fun _ => by simp) (fun _ => ?_) (fun _ => .pure rfl ?_)
      · refine .bind ((memberName_echoes _).begin _) fun {x y c₁} samex =>
          .pure (by simp [Turn.forms, behindPoints]) ?_
        simp only [Turn.map, List.map_cons, same, samex]
      · simp only [Turn.map, List.map_reverse, same]
    · intro s c s' c₁ sound run
      rcases partStep_ok.mp run with ⟨dot, x, _, run, turn⟩ | ⟨_, run⟩
      · cases turn
        exact (before_of_kind dot (by simp)).trans (memberName_before run)
      · cases run
  intro sound parts c' run
  obtain ⟨more, rfl, _⟩ := parts_ok.mp run
  obtain ⟨F, all, stands, again⟩ := loop sound run
  refine ⟨F, ?_, stands, again⟩
  simpa [behindPoints, QualifiedName.forms, Form.dotted] using all

theorem qualifiedName_echoes :
    Echoes .tight .loose qualifiedName QualifiedName.forms (QualifiedName.blur .erasing) := by
  intro c
  refine .here fun {s t} => .bind (identifier_echoes c) fun {x y c₁} same => ?_
  refine .bindOn (parts_echoes same c₁) fun {parts parts' c₂} same => ?_
  refine .spanFrom fun {s t} => .pure rfl ?_
  simp only [QualifiedName.blur, Blur.erasing_span, same]

end Parser

end Apex
