import Apex.Node.View
import Apex.Proofs.Reading.Steps

/-!
# Nodes on a row of tokens

A node sits between two places of a row if its span reaches from the first token to the last and
its children sit between the same places, one behind the other. On a row whose tokens follow each
other this is all that is to be known about the spans of a tree: every node contains its children,
and they come in the order of the source.

What stands between the children of a node is not free either. A token that carries a name or a
value is kept by a leaf, unless it is one of the few words that a node stands for itself, such as
the `on` of a trigger.
-/

namespace Apex

/-- Whether the token carries nothing that a leaf of the tree has to keep. -/
def Token.silent (t : Token) : Bool := !t.kind.bearsLeaf

/-- The contextual words that a piece of syntax stands for without any node of its own for them. -/
def Element.words : Element → List Keyword
  | .trigger _ => [.kwOn]
  | .accessor a => [a.kind.keyword]
  | .statement (.runAs ..) => [.kwSystem, .kwRunAs]
  | _ => []

/-- Whether the token may belong to the piece of syntax itself and to none of its parts. A leaf
has no parts. -/
def Element.keeps (e : Element) (t : Token) : Bool :=
  e.kind.isLeaf || t.silent || e.words.any t.kind.spells

namespace Element

variable {e : Element} {t : Token}

theorem keeps_of_silent (silent : t.silent = true) : e.keeps t = true := by
  simp [keeps, silent]

theorem keeps_of_spells {k : Keyword} (word : k ∈ e.words) (spells : t.kind.spells k = true) :
    e.keeps t = true := by
  have : e.words.any t.kind.spells = true := List.any_eq_true.mpr ⟨k, word, spells⟩
  simp [keeps, this]

end Element

/-- The tokens of a row follow each other, and none before the last is empty. -/
structure SortedRow (row : Array Token) : Prop where
  ordered : ∀ i (h : i + 1 < row.size), row[i].span.stop ≤ row[i + 1].span.start
  proper : ∀ i (h : i + 1 < row.size), row[i].span.start < row[i].span.stop

namespace SortedRow

variable {row : Array Token}

theorem start_mono (s : SortedRow row) {i j : Nat} (hij : i ≤ j) (hj : j < row.size) :
    row[i].span.start ≤ row[j].span.start := by
  induction j with
  | zero =>
    obtain rfl : i = 0 := by omega
    exact Nat.le_refl _
  | succ j ih =>
    by_cases same : i = j + 1
    · subst same
      exact Nat.le_refl _
    · have below := ih (by omega) (by omega)
      have := s.proper j hj
      have := s.ordered j hj
      omega

/-- A token stops before the tokens behind it start. -/
theorem stop_le_start (s : SortedRow row) {i j : Nat} (hij : i < j) (hj : j < row.size) :
    row[i].span.stop ≤ row[j].span.start :=
  Nat.le_trans (s.ordered i (by omega)) (s.start_mono hij hj)

end SortedRow

namespace Cursor

variable {c c₁ c₂ c' : Cursor}

/-- The cursor is on a row whose tokens follow each other. -/
abbrev Sorted (c : Cursor) : Prop := SortedRow c.tokens

/-- Where the token under the cursor starts. -/
def start (c : Cursor) : Nat := c.current.span.start

/-- Where the token before the cursor stops. -/
def stop (c : Cursor) : Nat := (c.previous?.map (·.span.stop)).getD 0

/-- The span of the tokens between two places. -/
def through (c c' : Cursor) : Span := ⟨c.start, c'.stop⟩

theorem Upto.sorted (h : c.Upto c') (s : c.Sorted) : c'.Sorted := by
  unfold Sorted
  rw [h.tokens]
  exact s

theorem Before.sorted (h : c.Before c') (s : c.Sorted) : c'.Sorted := h.upto.sorted s

theorem Sorted.advance (s : c.Sorted) : c.advance.Sorted := (upto_advance c).sorted s

theorem start_eq (h : c.position < c.tokens.size) : c.start = c.tokens[c.position].span.start := rfl

theorem Upto.start_eq (h : c.Upto c') (hc : c'.position < c.tokens.size) :
    c'.start = c.tokens[c'.position].span.start := by
  obtain ⟨tokens, position, inBounds, _⟩ := c'
  obtain ⟨rfl, _⟩ := h
  rfl

/-- The token before a place behind another one. -/
theorem Before.previous?_eq (h : c.Before c') (hc : c'.position - 1 < c.tokens.size) :
    c'.previous? = some c.tokens[c'.position - 1] := by
  have hp := h.position
  rw [previous?, if_neg (by omega), h.tokens, Array.getElem?_eq_getElem hc]

theorem Before.stop_eq (h : c.Before c') (hc : c'.position - 1 < c.tokens.size) :
    c'.stop = c.tokens[c'.position - 1].span.stop := by
  simp [stop, h.previous?_eq hc]

/-- The bounds of a place behind another one, on the row of the first. -/
theorem Before.inBounds (h : c.Before c') : c'.position < c.tokens.size := by
  have inBounds := c'.inBounds
  rwa [h.tokens] at inBounds

theorem Upto.start_le (h : c.Upto c') (s : c.Sorted) : c.start ≤ c'.start := by
  have inBounds : c'.position < c.tokens.size := by
    have inBounds := c'.inBounds
    rwa [h.tokens] at inBounds
  rw [h.start_eq inBounds, Cursor.start_eq c.inBounds]
  exact s.start_mono h.position inBounds

theorem stop_le_start (s : c.Sorted) : c.stop ≤ c.start := by
  have inBounds := c.inBounds
  by_cases first : c.position = 0
  · have : c.previous? = none := if_pos first
    simp [stop, this]
  · have last : c.position - 1 < c.tokens.size := by omega
    have stop_eq : c.stop = c.tokens[c.position - 1].span.stop := by
      simp [stop, previous?, first, Array.getElem?_eq_getElem last]
    rw [stop_eq, Cursor.start_eq inBounds]
    exact s.stop_le_start (by omega) inBounds

/-- The first token of a stretch stops no later than the stretch. -/
theorem Before.current_stop_le (h : c.Before c') (s : c.Sorted) :
    c.current.span.stop ≤ c'.stop := by
  have hp := h.position
  have inBounds := h.inBounds
  have last : c'.position - 1 < c.tokens.size := by omega
  rw [h.stop_eq last, c.current_eq c.inBounds]
  by_cases next : c'.position - 1 = c.position
  · simp only [next]
    exact Nat.le_refl _
  · have := s.stop_le_start (i := c.position) (j := c'.position - 1) (by omega) last
    have := s.proper (c'.position - 1) (by omega)
    omega

theorem Before.start_lt_stop (h : c.Before c') (s : c.Sorted) : c.start < c'.stop := by
  have hp := h.position
  have inBounds := h.inBounds
  have := h.current_stop_le s
  have := s.proper c.position (by omega)
  rw [c.current_eq c.inBounds] at *
  rw [Cursor.start_eq c.inBounds]
  omega

theorem Upto.stop_le (h : c.Upto c') (s : c.Sorted) : c.stop ≤ c'.stop := by
  by_cases same : c.position = c'.position
  · exact Nat.le_of_eq (congrArg Cursor.stop (ext_position h.tokens same.symm)).symm
  · have := stop_le_start s
    have := Before.start_lt_stop ⟨h.tokens, Nat.lt_of_le_of_ne h.position same⟩ s
    omega

theorem stop_advance (h : c.current.isEnd = false) : c.advance.stop = c.current.span.stop := by
  simp [stop, previous?_advance h]

theorem through_advance (h : c.current.isEnd = false) : c.through c.advance = c.current.span := by
  rw [through, stop_advance h]
  rfl

/-- The span from a piece that starts at one place to the token before another place. -/
theorem spanFrom_eq_through {s : Span} (h : c.Before c') (sorted : c.Sorted)
    (hstart : s.start = c.start) (hstop : s.stop ≤ c'.stop) : c'.spanFrom s = c.through c' := by
  have hp := h.position
  have inBounds := h.inBounds
  have last : c'.position - 1 < c.tokens.size := by omega
  have := h.start_lt_stop sorted
  have stop_eq := h.stop_eq last
  have first : c.start ≤ c.tokens[c'.position - 1].span.start :=
    sorted.start_mono (by omega) last
  unfold spanFrom
  rw [h.previous?_eq last]
  simp only [hstart, ← stop_eq]
  rw [if_pos (by omega)]
  unfold through Span.merge
  rw [← stop_eq, hstart, Nat.min_eq_left first, Nat.max_eq_right hstop]

theorem spanFrom_current (h : c.Before c') (sorted : c.Sorted) :
    c'.spanFrom c.current.span = c.through c' :=
  spanFrom_eq_through h sorted rfl (h.current_stop_le sorted)

theorem merge_through (h : c.Upto c₂) (h' : c₁.Upto c') (s : c.Sorted) (s₁ : c₁.Sorted) :
    (c.through c₁).merge (c₂.through c') = c.through c' := by
  unfold through Span.merge
  rw [Nat.min_eq_left (h.start_le s), Nat.max_eq_right (h'.stop_le s₁)]

/-! ## Gaps -/

/-- All tokens between two places of a row are of a sort. -/
structure Gap (free : Token → Bool) (c c' : Cursor) : Prop where
  upto : c.Upto c'
  all_free : ∀ i (h : i < c.tokens.size), c.position ≤ i → i < c'.position →
    free c.tokens[i] = true

/-- Nothing between two places of a row has to be kept by a leaf. -/
abbrev Silent : Cursor → Cursor → Prop := Gap Token.silent

/-- A row goes on from one place to another behind it, and nothing between them has to be kept by
a leaf. -/
structure Lead (c c' : Cursor) : Prop where
  before : c.Before c'
  silent : c.Silent c'

section Gaps

variable {free : Token → Bool}

theorem Gap.refl (c : Cursor) : c.Gap free c :=
  ⟨.refl _, fun _ _ _ _ => by omega⟩

theorem Gap.trans (h : c.Gap free c₁) (h' : c₁.Gap free c') : c.Gap free c' where
  upto := h.upto.trans h'.upto
  all_free := by
    intro i inside from_c to_c'
    by_cases early : i < c₁.position
    · exact h.all_free i inside from_c early
    · have same := h.upto.tokens
      have := h'.all_free i (by rw [same]; exact inside) (by omega) to_c'
      simpa only [same] using this

theorem Gap.mono {free' : Token → Bool} (h : c.Gap free c')
    (imp : ∀ t, free t = true → free' t = true) : c.Gap free' c' :=
  ⟨h.upto, fun i inside from_c to_c' => imp _ (h.all_free i inside from_c to_c')⟩

theorem gap_advance (h : free c.current = true) : c.Gap free c.advance where
  upto := upto_advance c
  all_free := by
    intro i inside from_c to_c'
    have next : c.advance.position ≤ c.position + 1 := by
      unfold advance
      split
      · split
        · exact Nat.le_succ _
        · exact Nat.le_refl _
      · exact Nat.le_succ _
    have here : i = c.position := by omega
    subst here
    exact h

end Gaps

variable {k : TokenKind}

/-- Past a token of a known kind that is no name and no literal. -/
theorem silent_advance (h : c.current.kind = k) (silent : k.bearsLeaf = false) :
    c.Silent c.advance :=
  gap_advance (by rw [Token.silent, h, silent]; rfl)

theorem Lead.sorted (h : c.Lead c') (s : c.Sorted) : c'.Sorted := h.before.sorted s

theorem Lead.trans (h : c.Lead c₁) (h' : c₁.Silent c') : c.Lead c' :=
  ⟨h.before.trans_upto h'.upto, Gap.trans h.silent h'⟩

end Cursor

/-! ## Sitting -/

mutual

/-- The node sits between two places. -/
inductive Node.Sits : Node → Cursor → Cursor → Prop where
  | mk {element : Element} {span : Span} {children : List Node} {c c' : Cursor}
    (bare : element.kind.isLeaf = true → children = []) (before : c.Before c')
    (span_eq : span = c.through c') (row : Node.Spread element.keeps children c c') :
    Node.Sits (.mk element span children) c c'

/-- The nodes sit between two places, one behind the other, with tokens of a sort around them. -/
inductive Node.Spread : (Token → Bool) → List Node → Cursor → Cursor → Prop where
  | nil {free : Token → Bool} {c c' : Cursor} (gap : c.Gap free c') : Node.Spread free [] c c'
  | cons {free : Token → Bool} {n : Node} {ns : List Node} {c c₁ c₂ c' : Cursor}
    (gap : c.Gap free c₁) (first : Node.Sits n c₁ c₂) (rest : Node.Spread free ns c₂ c') :
    Node.Spread free (n :: ns) c c'

end

/-- The nodes sit between two places, one behind the other, and nothing around them has to be kept
by a leaf. -/
abbrev Node.Row : List Node → Cursor → Cursor → Prop := Node.Spread Token.silent

namespace Node

variable {free : Token → Bool} {n : Node} {ns ms : List Node} {c c₁ c₂ c' : Cursor}

theorem Sits.before (h : n.Sits c c') : c.Before c' := by
  cases h
  assumption

theorem Sits.span_eq (h : n.Sits c c') : n.span = c.through c' := by
  cases h
  assumption

theorem Sits.bare (h : n.Sits c c') : n.kind.isLeaf = true → n.children = [] := by
  cases h
  assumption

theorem Sits.children_spread (h : n.Sits c c') : Spread n.element.keeps n.children c c' := by
  cases h
  assumption

theorem Spread.upto (h : Spread free ns c c') : c.Upto c' := by
  induction ns generalizing c with
  | nil =>
    obtain ⟨gap⟩ := h
    exact gap.upto
  | cons n ns ih =>
    obtain _ | ⟨gap, first, rest⟩ := h
    exact gap.upto.trans (first.before.upto.trans (ih rest))

theorem Spread.mono (h : Spread free ns c₁ c₂) (before : c.Gap free c₁)
    (behind : c₂.Gap free c') : Spread free ns c c' := by
  induction ns generalizing c c₁ with
  | nil =>
    obtain ⟨gap⟩ := h
    exact .nil (before.trans (gap.trans behind))
  | cons n ns ih =>
    obtain _ | ⟨gap, first, rest⟩ := h
    exact .cons (before.trans gap) first (ih rest (.refl _))

theorem Spread.append (h : Spread free ns c c₁) (h' : Spread free ms c₁ c') :
    Spread free (ns ++ ms) c c' := by
  induction ns generalizing c with
  | nil =>
    obtain ⟨gap⟩ := h
    exact h'.mono gap (.refl _)
  | cons n ns ih =>
    obtain _ | ⟨gap, first, rest⟩ := h
    exact .cons gap first (ih rest)

/-- Among tokens of a wider sort. -/
theorem Spread.among {free' : Token → Bool} (h : Spread free ns c c')
    (imp : ∀ t, free t = true → free' t = true) : Spread free' ns c c' := by
  induction ns generalizing c with
  | nil =>
    obtain ⟨gap⟩ := h
    exact .nil (gap.mono imp)
  | cons n ns ih =>
    obtain _ | ⟨gap, first, rest⟩ := h
    exact .cons (gap.mono imp) first (ih rest)

theorem Row.keeps (h : Row ns c c') (element : Element) : Spread element.keeps ns c c' :=
  h.among fun _ => Element.keeps_of_silent

theorem Sits.row (h : n.Sits c c') : Row [n] c c' :=
  .cons (.refl _) h (.nil (.refl _))

theorem Sits.cons (h : n.Sits c c₁) (rest : Row ns c₁ c') : Row (n :: ns) c c' :=
  .cons (.refl _) h rest

/-- A leaf sits on the tokens that its span covers. -/
theorem sits_leaf {element : Element} {span : Span} (isLeaf : element.kind.isLeaf = true)
    (before : c.Before c') (span_eq : span = c.through c') : (leaf element span).Sits c c' := by
  refine .mk (fun _ => rfl) before span_eq (.nil ⟨before.upto, fun i _ _ _ => ?_⟩)
  rw [Element.keeps, isLeaf]
  rfl

/-- A node that is no leaf sits where its children do. -/
theorem sits_of_row {element : Element} {span : Span} (inner : element.kind.isLeaf = false)
    (before : c.Before c') (span_eq : span = c.through c') (row : Row ns c c') :
    (Node.mk element span ns).Sits c c' :=
  .mk (fun isLeaf => by rw [inner] at isLeaf; cases isLeaf) before span_eq (row.keeps element)

/-- A node sits where its children do, with a first token before them that starts its span. -/
theorem sits_of_first {element : Element} (inner : element.kind.isLeaf = false) (s : c.Sorted)
    (first : c.Lead c₁) (row : Row ns c₁ c') :
    (Node.mk element (c'.spanFrom c.current.span) ns).Sits c c' :=
  have before := first.before.trans_upto row.upto
  sits_of_row inner before (Cursor.spanFrom_current before s) (row.mono first.silent (.refl _))

/-- The span of two nodes, one behind the other. -/
theorem Sits.merge_span {m : Node} (h : n.Sits c c₁) (s : c.Sorted) (gap : c₁.Upto c₂)
    (h' : m.Sits c₂ c') : n.span.merge m.span = c.through c' := by
  rw [h.span_eq, h'.span_eq]
  exact Cursor.merge_through (h.before.upto.trans gap) (gap.trans h'.before.upto) s
    (h.before.sorted s)

/-- The span of a token and a node behind it. -/
theorem Sits.merge_current (h : n.Sits c₁ c') (s : c.Sorted) (first : c.Before c₁) :
    c.current.span.merge n.span = c.through c' := by
  have starts : c.current.span.start ≤ c₁.start := first.upto.start_le s
  have stops := (first.trans_upto h.before.upto).current_stop_le s
  rw [h.span_eq]
  unfold Cursor.through Span.merge
  rw [Nat.min_eq_left starts, Nat.max_eq_right stops]
  rfl

/-- The span from the start of a node to a place behind it. -/
theorem Sits.spanFrom_eq (h : n.Sits c c₁) (s : c.Sorted) (behind : c₁.Upto c') :
    c'.spanFrom n.span = c.through c' := by
  have s₁ := h.before.sorted s
  refine Cursor.spanFrom_eq_through (h.before.trans_upto behind) s ?_ ?_
  · rw [h.span_eq]
    rfl
  · rw [h.span_eq]
    exact behind.stop_le s₁

/-- A row of nodes collected from items that each sit in a row of their own. -/
theorem row_of_items {α : Type} {item : Cursor → α → Cursor → Prop} {node : α → Node}
    {xs : List α} (h : Parser.Items item c xs c') (s : c.Sorted)
    (hrow : ∀ {c x c₁}, c.Sorted → item c x c₁ → Row [node x] c c₁) :
    Row (xs.map node) c c' := by
  induction h with
  | nil => exact .nil (.refl _)
  | cons first _ ih =>
    have row := hrow s first
    exact row.append (ih (row.upto.sorted s))

/-! ## What sitting says about spans -/

theorem Sits.contains (h : n.Sits c c') (s : c.Sorted) {child : Node} (hc : child ∈ n.children) :
    n.span.contains child.span = true := by
  have within : ∀ {ns : List Node} {c₁}, Spread n.element.keeps ns c₁ c' → c.Upto c₁ → child ∈ ns →
      n.span.contains child.span = true := by
    intro ns c₁ row upto hc
    induction ns generalizing c₁ with
    | nil => cases hc
    | cons m ns ih =>
      obtain _ | ⟨gap, first, rest⟩ := row
      have upto' := upto.trans gap.upto
      rcases List.mem_cons.mp hc with rfl | hc
      · rw [h.span_eq, first.span_eq]
        have starts := upto'.start_le s
        have stops := rest.upto.stop_le (first.before.sorted (upto'.sorted s))
        exact Bool.and_eq_true_iff.mpr ⟨decide_eq_true starts, decide_eq_true stops⟩
      · exact ih rest (upto'.trans first.before.upto) hc
  exact within h.children_spread (.refl _) hc

theorem Spread.ordered (h : Spread free ns c c') (s : c.Sorted) {i : Nat} {a b : Node}
    (ha : ns[i]? = some a) (hb : ns[i + 1]? = some b) : a.span.stop ≤ b.span.start := by
  induction ns generalizing c i with
  | nil => cases ha
  | cons n ns ih =>
    obtain _ | ⟨gap, first, rest⟩ := h
    have s₁ := gap.upto.sorted s
    have s₂ := first.before.sorted s₁
    cases i with
    | succ i => exact ih rest s₂ ha hb
    | zero =>
      cases ha
      cases ns with
      | nil => cases hb
      | cons m ns =>
        cases hb
        obtain _ | ⟨gap', second, _⟩ := rest
        rw [first.span_eq, second.span_eq]
        exact Nat.le_trans (Cursor.stop_le_start s₂) (gap'.upto.start_le s₂)

/-- The nodes of a row start one behind the other. -/
theorem Spread.pairwise_start (h : Spread free ns c c') (s : c.Sorted) :
    ns.Pairwise (·.span.start < ·.span.start) := by
  have behind : ∀ {ns : List Node} {c : Cursor}, Spread free ns c c' → c.Sorted →
      ∀ m ∈ ns, c.start ≤ m.span.start := by
    intro ns
    induction ns with
    | nil => intro _ _ _ m hm; cases hm
    | cons n ns ih =>
      intro c h s m hm
      obtain _ | ⟨gap, first, rest⟩ := h
      have s₁ := gap.upto.sorted s
      have starts := gap.upto.start_le s
      rcases List.mem_cons.mp hm with rfl | hm
      · rwa [first.span_eq]
      · have := first.before.upto.start_le s₁
        have := ih rest (first.before.sorted s₁) m hm
        omega
  induction ns generalizing c with
  | nil => exact .nil
  | cons n ns ih =>
    obtain _ | ⟨gap, first, rest⟩ := h
    have s₁ := gap.upto.sorted s
    have s₂ := first.before.sorted s₁
    refine .cons (fun m hm => ?_) (ih rest s₂)
    have starts := first.before.start_lt_stop s₁
    have stops := Cursor.stop_le_start s₂
    have later := behind rest s₂ m hm
    rw [first.span_eq]
    exact Nat.lt_of_lt_of_le starts (Nat.le_trans stops later)

/-- Whatever is below a sitting node sits as well. -/
theorem Sits.descend {path : List Nat} {m : Node} (h : n.Sits c c') (s : c.Sorted)
    (reached : n.descend? path = some m) : ∃ d d', m.Sits d d' ∧ d.Sorted := by
  induction path generalizing n c c' with
  | nil =>
    cases reached
    exact ⟨c, c', h, s⟩
  | cons i path ih =>
    rw [descend?] at reached
    have child : ∀ {free : Token → Bool} {ns : List Node} {c : Cursor} {i : Nat} {k : Node},
        Spread free ns c c' → c.Sorted → ns[i]? = some k → ∃ d d', k.Sits d d' ∧ d.Sorted := by
      intro free ns
      induction ns with
      | nil => intro c i k _ _ hk; cases hk
      | cons n ns ih =>
        intro c i k row s hk
        obtain _ | ⟨gap, first, rest⟩ := row
        have s₁ := gap.upto.sorted s
        cases i with
        | zero =>
          cases hk
          exact ⟨_, _, first, s₁⟩
        | succ i => exact ih rest (first.before.sorted s₁) hk
    cases hk : n.children[i]? with
    | none => simp [hk] at reached
    | some k =>
      obtain ⟨d, d', sits, sorted⟩ := child h.children_spread s hk
      exact ih sits sorted (by simpa [hk] using reached)

end Node

/-! ## Parsers of sitting nodes -/

namespace Parser

variable {α : Type} {node : α → Node} {c c' : Cursor}

/-- What the parser reads sits on the tokens it reads. -/
def Sits (p : Parser α) (node : α → Node) : Prop :=
  ∀ ⦃c x c'⦄, c.Sorted → p c = .ok (x, c') → (node x).Sits c c'

/-- What the parser reads makes a row of nodes on the tokens it reads. -/
def Rows (p : Parser α) (nodes : α → List Node) : Prop :=
  ∀ ⦃c x c'⦄, c.Sorted → p c = .ok (x, c') → Node.Row (nodes x) c c'

theorem Sits.rows {p : Parser α} (h : p.Sits node) : p.Rows fun x => [node x] :=
  fun _ _ _ s run => (h s run).row

/-- A parser that goes by the kind of the token under the cursor. -/
theorem sits_of_kind {f : TokenKind → Parser α} (h : ∀ k, (f k).Sits node) :
    (kind >>= f).Sits node :=
  fun _ _ _ s run => h _ s run

theorem itemsUntil_rows {item : Parser α} (h : item.Rows fun x => [node x]) (close : TokenKind) :
    (itemsUntil close item).Rows (·.map node) := by
  intro c xs c' s run
  exact Node.row_of_items (itemsUntil_items run).1 s fun s run => h s run.2

theorem commaItems_row {item : Parser α} {xs : List α} (h : item.Rows fun x => [node x])
    (s : c.Sorted) (items : Items (CommaItem item) c xs c') : Node.Row (xs.map node) c c' :=
  Node.row_of_items items s fun s run =>
    (h s.advance run.2).mono (Cursor.silent_advance run.1 rfl) (.refl _)

theorem commaSeparated_rows {item : Parser α} (h : item.Rows fun x => [node x]) :
    (commaSeparated item).Rows (·.map node) := by
  intro c xs c' s run
  obtain ⟨first, c₁, more, rfl, run, items, _⟩ := commaSeparated_items run
  have row := h s run
  exact row.append (commaItems_row h (row.upto.sorted s) items)

theorem identifier_sits : identifier.Sits Spanned.identifierNode := by
  intro c x c' _ h
  obtain ⟨text, name, run⟩ := identifier_ok.mp h
  cases run
  have inside : c.current.isEnd = false := by simp [Token.isEnd, name]
  exact Node.sits_leaf rfl (Cursor.before_advance inside) (Cursor.through_advance inside).symm

theorem memberName_sits : memberName.Sits Spanned.identifierNode := by
  intro c x c' _ h
  obtain ⟨text, word, run⟩ := memberName_ok.mp h
  cases run
  have inside := isEnd_of_writtenWord? word
  exact Node.sits_leaf rfl (Cursor.before_advance inside) (Cursor.through_advance inside).symm

theorem qualifiedName_sits : qualifiedName.Sits QualifiedName.node := by
  intro c q c' s h
  obtain ⟨first, c₁, parts, c₂, name, more, run⟩ := qualifiedName_ok.mp h
  obtain ⟨others, rfl, items, _⟩ := parts_ok.mp more
  cases run
  have head := identifier_sits s name
  have s₁ := head.before.sorted s
  have tail : Node.Row (others.map Spanned.identifierNode) c₁ c' :=
    Node.row_of_items items s₁ fun s run =>
      (memberName_sits s.advance run.2).row.mono (Cursor.silent_advance run.1 rfl) (.refl _)
  have before := head.before.trans_upto tail.upto
  exact Node.sits_of_row rfl before (Cursor.spanFrom_current before s) (head.cons tail)

theorem isEnd_of_kind {t : Token} {k : TokenKind} (h : t.kind = k) (inside : k ≠ .endOfFile) :
    t.isEnd = false := by
  unfold Token.isEnd
  rw [h]
  cases k <;> simp_all

theorem isEnd_of_spells {t : Token} {k : Keyword} (h : t.kind.spells k = true) :
    t.isEnd = false := by
  refine isEnd_of_kind rfl fun ends => ?_
  rw [ends] at h
  cases h

/-- Behind a token of a known kind that is not the end. -/
theorem before_of_kind {k : TokenKind} (h : c.current.kind = k) (inside : k ≠ .endOfFile) :
    c.Before c.advance :=
  Cursor.before_advance (isEnd_of_kind h inside)

/-- Past a token of a known kind that is a keyword or a mark. -/
theorem lead_of_kind {k : TokenKind} (h : c.current.kind = k) (silent : k.bearsLeaf = false)
    (inside : k ≠ .endOfFile) : c.Lead c.advance :=
  ⟨before_of_kind h inside, Cursor.silent_advance h silent⟩

end Parser

end Apex
