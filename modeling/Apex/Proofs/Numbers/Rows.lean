import Apex.Node.View
import Apex.Proofs.Spans.Rows
import Mathlib.Data.Multiset.AddSub

/-!
# Whole numbers on a row of tokens

The literals of a tree are compared with the tokens they are read from. Whole numbers of a row are
listed with the minus sign directly before them, if there is one; whole numbers of a tree with
whether they are values of an annotation, since only there a sign is taken into the number. Some
nodes tally with a stretch of a row if the numbers below them are read from the numbers in the
stretch, one from each. What is put together from nodes that tally tallies.
-/

namespace Apex

/-! ## Whole numbers of tokens and trees -/

/-- A whole number as a token or a literal carries it. -/
structure WholeNumber where
  /-- Whether it is written with an `L`. -/
  isLong : Bool
  value : Int64
deriving DecidableEq, Repr

/-- The number with the opposite sign, in 64 bits. -/
def WholeNumber.negated (n : WholeNumber) : WholeNumber := ⟨n.isLong, -n.value⟩

/-- The whole number that a token is. -/
def TokenKind.whole? : TokenKind → Option WholeNumber
  | .integer value => some ⟨false, value⟩
  | .long value => some ⟨true, value⟩
  | _ => none

/-- The whole number that a literal is. -/
def Literal.whole? : Literal → Option WholeNumber
  | .integer value => some ⟨false, value⟩
  | .long value => some ⟨true, value⟩
  | _ => none

/-- Where a minus sign stands, if the token is one. -/
def Token.sign? (t : Token) : Option Span :=
  if t.kind = .operator .minus then some t.span else none

/-- Whether the token is no whole number. -/
def Token.isNumberless (t : Token) : Bool := t.kind.whole?.isNone

/-- A whole number on a row of tokens. -/
structure NumberToken where
  number : WholeNumber
  span : Span
  /-- Where the minus sign directly before it stands, if there is one. -/
  sign? : Option Span
deriving DecidableEq, Repr

/-- Where the minus sign directly before a place of a row stands, if there is one. -/
def signBefore? (row : List Token) : Nat → Option Span
  | 0 => none
  | i + 1 => row[i]?.bind Token.sign?

/-- The whole number at a place of a row, if there is one. -/
def NumberToken.at? (row : List Token) (i : Nat) : Option NumberToken :=
  row[i]?.bind fun t => t.kind.whole?.map fun n => ⟨n, t.span, signBefore? row i⟩

/-- The whole numbers of a row. -/
def numberTokens (row : List Token) : List NumberToken :=
  (List.range row.length).filterMap (NumberToken.at? row)

/-- A whole number of a tree. -/
structure NumberLiteral where
  number : WholeNumber
  span : Span
  /-- Whether it is the value of an annotation's argument, or one of several in braces. -/
  isValue : Bool
deriving DecidableEq, Repr

namespace Element

/-- The whole number that a piece of syntax is. -/
def whole? : Element → Option WholeNumber
  | .literal l => l.whole?
  | _ => none

/-- Whether literals that are parts of the piece of syntax are values of an annotation. -/
def holdsValues : Element → Bool
  | .annotationElement _ | .annotationArray _ => true
  | _ => false

/-- Whether the piece of syntax is neither a number nor holds values of an annotation. -/
def isPlain (e : Element) : Bool := e.whole?.isNone && !e.holdsValues

end Element

mutual

/-- The whole numbers of a tree, given whether its root is the value of an annotation. -/
def Node.numbers (isValue : Bool) : Node → List NumberLiteral
  | .mk element span children =>
    (element.whole?.map fun n => ⟨n, span, isValue⟩).toList ++
      Node.numbersOf element.holdsValues children

/-- The whole numbers of several trees. -/
def Node.numbersOf (isValue : Bool) : List Node → List NumberLiteral
  | [] => []
  | n :: ns => n.numbers isValue ++ Node.numbersOf isValue ns

end

/-- Where a number stands together with the sign before it. -/
def Span.signed (sign number : Span) : Span :=
  if sign.start ≤ number.stop then sign.merge number else sign

/-- Whether the sign before the token is taken into the literal. -/
def NumberLiteral.takesSign (w : NumberLiteral) (t : NumberToken) : Bool :=
  w.isValue && t.sign?.isSome

/-- Where a literal stands that is read from the token. -/
def NumberToken.placeFor (t : NumberToken) (isValue : Bool) : Span :=
  match isValue, t.sign? with
  | true, some sign => sign.signed t.span
  | _, _ => t.span

/-- The literal is what the grammar makes of the token. -/
structure NumberLiteral.IsReadFrom (w : NumberLiteral) (t : NumberToken) : Prop where
  number_eq : w.number = if w.takesSign t then t.number.negated else t.number
  span_eq : w.span = t.placeFor w.isValue

/-! ## Words are no numbers -/

theorem TokenKind.whole?_of_word? {k : TokenKind} {word : String} (h : k.word? = some word) :
    k.whole? = none := by
  cases k <;> first | rfl | cases h

theorem TokenKind.whole?_of_spells {k : TokenKind} {keyword : Keyword}
    (h : k.spells keyword = true) : k.whole? = none := by
  cases k <;> first | rfl | cases h

theorem Token.whole?_of_writtenWord? {t : Token} {text : String}
    (h : t.writtenWord? = some text) : t.kind.whole? = none := by
  unfold writtenWord? at h
  split at h
  · next keyword _ =>
    rw [keyword]
    rfl
  · exact TokenKind.whole?_of_word? h

/-! ## Numbers between two places -/

namespace Cursor

variable {c c₁ c' : Cursor} {k : TokenKind}

/-- The whole numbers from one place of a row to another. -/
def numbersTo (c c' : Cursor) : List NumberToken :=
  (List.range' c.position (c'.position - c.position)).filterMap (NumberToken.at? c.tokens.toList)

/-- Where the minus sign directly before the cursor stands, if there is one. -/
def sign? (c : Cursor) : Option Span := c.previous?.bind Token.sign?

theorem numbersTo_append (h : c.Upto c₁) (h' : c₁.Upto c') :
    c.numbersTo c' = c.numbersTo c₁ ++ c₁.numbersTo c' := by
  have hp := h.position
  have hp' := h'.position
  have whole : c'.position - c.position =
      (c₁.position - c.position) + (c'.position - c₁.position) := by omega
  have middle : c.position + (c₁.position - c.position) = c₁.position := by omega
  unfold numbersTo
  rw [whole, ← List.range'_append_1, List.filterMap_append, middle, h.tokens]

theorem signBefore?_position (c : Cursor) : signBefore? c.tokens.toList c.position = c.sign? := by
  unfold sign? previous?
  cases c.position with
  | zero => rfl
  | succ i => simp [signBefore?]

/-- Past one token the only number can be that token. -/
theorem numbersTo_advance (h : c.current.isEnd = false) :
    c.numbersTo c.advance =
      (c.current.kind.whole?.map fun n => ⟨n, c.current.span, c.sign?⟩).toList := by
  have here : c.tokens.toList[c.position]? = some c.current := by
    rw [Array.getElem?_toList, Array.getElem?_eq_getElem c.inBounds]
    rfl
  have one : c.advance.position - c.position = 1 := by
    rw [advance_of_not_atEnd h]
    exact Nat.add_sub_cancel_left c.position 1
  have found : NumberToken.at? c.tokens.toList c.position =
      c.current.kind.whole?.map fun n => ⟨n, c.current.span, c.sign?⟩ := by
    rw [NumberToken.at?, here, signBefore?_position]
    rfl
  unfold numbersTo
  rw [one, List.range'_one, List.filterMap_cons, found]
  cases c.current.kind.whole? <;> rfl

/-- There is no whole number between two places. -/
abbrev Numberless : Cursor → Cursor → Prop := Gap Token.isNumberless

theorem Gap.numbersTo_eq_nil (h : c.Numberless c') : c.numbersTo c' = [] := by
  refine List.filterMap_eq_nil_iff.mpr fun i mem => ?_
  obtain ⟨from_c, to_c'⟩ := List.mem_range'_1.mp mem
  unfold NumberToken.at?
  rw [Array.getElem?_toList]
  cases found : c.tokens[i]? with
  | none => rfl
  | some t =>
    obtain ⟨inside, rfl⟩ := Array.getElem?_eq_some_iff.mp found
    have none := Option.isNone_iff_eq_none.mp (h.all_free i inside from_c (by omega))
    rw [Option.bind_some, none]
    rfl

/-- Nothing that no leaf has to keep is a number. -/
theorem Gap.numberless (h : c.Silent c') : c.Numberless c' := by
  refine h.mono fun t silent => ?_
  unfold Token.silent at silent
  unfold Token.isNumberless
  cases hk : t.kind <;> rw [hk] at silent <;> first | rfl | cases silent

/-- Past a token of a known kind that is no number. -/
theorem numberless_advance (h : c.current.kind = k) (other : k.whole? = none) :
    c.Numberless c.advance :=
  gap_advance (by rw [Token.isNumberless, h, other]; rfl)

/-- Past a word that spells a keyword. -/
theorem numberless_of_spells {keyword : Keyword} (h : c.current.kind.spells keyword = true) :
    c.Numberless c.advance :=
  numberless_advance rfl (TokenKind.whole?_of_spells h)

end Cursor

/-! ## Nodes that tally -/

namespace Node

variable {isValue : Bool} {n : Node} {ns ms : List Node} {element : Element} {span : Span}
  {c c₁ c₂ c' : Cursor}

theorem numbersOf_append (isValue : Bool) (ns ms : List Node) :
    numbersOf isValue (ns ++ ms) = numbersOf isValue ns ++ numbersOf isValue ms := by
  induction ns with
  | nil => rfl
  | cons n ns ih => rw [List.cons_append, numbersOf, numbersOf, ih, List.append_assoc]

/-- The order of trees does not matter for which numbers they hold. -/
theorem numbersOf_perm (isValue : Bool) (h : ns.Perm ms) :
    (numbersOf isValue ns).Perm (numbersOf isValue ms) := by
  induction h with
  | nil => exact .nil
  | cons n _ ih => exact ih.append_left (n.numbers isValue)
  | swap n m ns =>
    simp only [numbersOf, ← List.append_assoc]
    exact List.perm_append_comm.append_right _
  | trans _ _ ih ih' => exact ih.trans ih'

theorem numbers_of_isPlain (plain : element.isPlain = true) :
    (Node.mk element span ns).numbers isValue = numbersOf false ns := by
  obtain ⟨none, other⟩ := Bool.and_eq_true_iff.mp plain
  have none := Option.isNone_iff_eq_none.mp none
  have other : element.holdsValues = false := by simpa using other
  rw [numbers, none, other]
  rfl

theorem numbersOf_of_isPlain (plain : element.isPlain = true) :
    numbersOf isValue [.mk element span ns] = numbersOf false ns := by
  rw [numbersOf, numbers_of_isPlain plain, numbersOf, List.append_nil]

/-- The numbers below the nodes are read from the numbers between two places, one from each. -/
structure Tally (isValue : Bool) (ns : List Node) (c c' : Cursor) : Prop where
  upto : c.Upto c'
  matched : Multiset.Rel NumberLiteral.IsReadFrom (numbersOf isValue ns : Multiset NumberLiteral)
    (c.numbersTo c' : Multiset NumberToken)

namespace Tally

theorem nil (h : c.Numberless c') : Tally isValue [] c c' where
  upto := h.upto
  matched := by
    rw [h.numbersTo_eq_nil]
    exact .zero

theorem append (h : Tally isValue ns c c₁) (h' : Tally isValue ms c₁ c') :
    Tally isValue (ns ++ ms) c c' where
  upto := h.upto.trans h'.upto
  matched := by
    rw [numbersOf_append, Cursor.numbersTo_append h.upto h'.upto, ← Multiset.coe_add,
      ← Multiset.coe_add]
    exact h.matched.add h'.matched

theorem cons (h : Tally isValue [n] c c₁) (h' : Tally isValue ns c₁ c') :
    Tally isValue (n :: ns) c c' := h.append h'

theorem mono (h : Tally isValue ns c₁ c₂) (before : c.Numberless c₁)
    (behind : c₂.Numberless c') : Tally isValue ns c c' := by
  have front : Tally isValue [] c c₁ := nil before
  have back : Tally isValue [] c₂ c' := nil behind
  have whole := (front.append h).append back
  rwa [List.nil_append, List.append_nil] at whole

theorem after (h : Tally isValue ns c₁ c') (before : c.Silent c₁) : Tally isValue ns c c' :=
  h.mono before.numberless (.refl _)

theorem before (h : Tally isValue ns c c₁) (behind : c₁.Silent c') : Tally isValue ns c c' :=
  h.mono (.refl _) behind.numberless

/-- Nothing but the numbers counts. -/
theorem congr {isValue' : Bool} (h : Tally isValue ns c c')
    (same : numbersOf isValue ns = numbersOf isValue' ms) : Tally isValue' ms c c' :=
  ⟨h.upto, same ▸ h.matched⟩

theorem perm (h : Tally isValue ns c c') (same : ns.Perm ms) : Tally isValue ms c c' where
  upto := h.upto
  matched := by
    rw [← Multiset.coe_eq_coe.mpr (numbersOf_perm isValue same)]
    exact h.matched

/-- A node that is no number and holds no values of an annotation tallies where its parts do. -/
theorem around (h : Tally false ns c c') (plain : element.isPlain = true) :
    Tally isValue [.mk element span ns] c c' :=
  h.congr (numbersOf_of_isPlain plain).symm

theorem leaf (plain : element.isPlain = true) (gap : c.Numberless c') :
    Tally isValue [.leaf element span] c c' := (nil gap).around plain

end Tally

/-- Nodes collected from items that each tally tally. -/
theorem tally_of_items {α : Type} {item : Cursor → α → Cursor → Prop} {node : α → Node}
    {xs : List α} (h : Parser.Items item c xs c')
    (tally : ∀ {c x c₁}, item c x c₁ → Tally isValue [node x] c c₁) :
    Tally isValue (xs.map node) c c' := by
  induction h with
  | nil => exact .nil (.refl _)
  | cons first _ ih => exact (tally first).cons ih

end Node

/-! ## Parsers whose results tally -/

namespace Parser

variable {α : Type} {node : α → Node} {c c' : Cursor}

/-- What the parser reads tallies with the tokens it reads. -/
def Tallies (p : Parser α) (nodes : α → List Node) : Prop :=
  ∀ ⦃c x c'⦄, p c = .ok (x, c') → Node.Tally false (nodes x) c c'

/-- A parser that goes by the kind of the token under the cursor. -/
theorem tallies_of_kind {nodes : α → List Node} {f : TokenKind → Parser α}
    (h : ∀ k, (f k).Tallies nodes) : (kind >>= f).Tallies nodes :=
  fun _ _ _ run => h _ run

section Lists

variable {item : Parser α} {xs : List α} (h : item.Tallies fun x => [node x])

include h

theorem itemsUntil_tallies (close : TokenKind) : (itemsUntil close item).Tallies (·.map node) :=
  fun _ _ _ run => Node.tally_of_items (itemsUntil_items run).1 fun run => h run.2

theorem commaItems_tally (items : Items (CommaItem item) c xs c') :
    Node.Tally false (xs.map node) c c' :=
  Node.tally_of_items items fun run => (h run.2).after (Cursor.silent_advance run.1 rfl)

theorem commaSeparated_tallies : (commaSeparated item).Tallies (·.map node) := by
  intro c xs c' run
  obtain ⟨first, c₁, more, rfl, run, items, _⟩ := commaSeparated_items run
  exact (h run).cons (commaItems_tally h items)

end Lists

/-! ### Names -/

theorem identifier_tallies : identifier.Tallies fun x => [x.identifierNode] := by
  intro c x c' h
  obtain ⟨text, name, done⟩ := identifier_ok.mp h
  cases done
  exact .leaf rfl (Cursor.numberless_advance name rfl)

theorem memberName_tallies : memberName.Tallies fun x => [x.identifierNode] := by
  intro c x c' h
  obtain ⟨text, word, done⟩ := memberName_ok.mp h
  cases done
  exact .leaf rfl (Cursor.numberless_advance rfl (Token.whole?_of_writtenWord? word))

theorem qualifiedName_tallies : qualifiedName.Tallies fun q => [q.node] := by
  intro c q c' h
  obtain ⟨first, c₁, parts, c₂, name, more, done⟩ := qualifiedName_ok.mp h
  obtain ⟨others, rfl, items, _⟩ := parts_ok.mp more
  cases done
  have tail : Node.Tally false (others.map Spanned.identifierNode) c₁ c' :=
    Node.tally_of_items items fun run =>
      (memberName_tallies run.2).after (Cursor.silent_advance run.1 rfl)
  exact ((identifier_tallies name).cons tail).around rfl

end Parser

end Apex
