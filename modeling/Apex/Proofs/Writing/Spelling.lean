import Apex.Proofs.Forms.Rows
import Apex.Proofs.Spans.Programs
import Apex.Proofs.Tiling.Sources

/-!
# Texts that spell forms

A text spells forms if it is cut into tokens of these forms, one behind the other, with blank space
anywhere between them. What is read of such a text stands in its tokens: `stands_of_spells`. An
operator between operands has a blank behind it, so that no `>` that follows can touch it.
-/

namespace Apex

open Grammar

/-! ## Tokens ahead -/

/-- The given tokens, and no others, stand from the cursor on. -/
def Cursor.Sees (c : Cursor) (ts : List Token) : Prop :=
  ∃ before, c.tokens = (before ++ ts).toArray ∧ c.position = before.length

namespace Cursor.Sees

variable {c : Cursor} {t : Token} {ts : List Token}

theorem peek (h : c.Sees ts) {n : Nat} (there : ts[n]? = some t) : c.peek n = t := by
  obtain ⟨before, row, place⟩ := h
  obtain ⟨inside, there⟩ := List.getElem?_eq_some_iff.mp there
  have near : min (c.position + n) (c.tokens.size - 1) = before.length + n := by
    simp only [row, place, List.size_toArray, List.length_append]
    omega
  unfold Cursor.peek
  simp only [near]
  simp [row, there]

theorem current (h : c.Sees (t :: ts)) : c.current = t := by
  rw [← c.peek_zero]
  exact h.peek rfl

theorem advance (h : c.Sees (t :: ts)) (inside : t.isEnd = false) : c.advance.Sees ts := by
  have inside : c.current.isEnd = false := by rw [h.current, inside]
  obtain ⟨before, row, place⟩ := h
  refine ⟨before ++ [t], ?_, ?_⟩
  · rw [c.advance_tokens, row, List.append_assoc]
    rfl
  · rw [Cursor.advance_of_not_atEnd inside]
    simp [place]

end Cursor.Sees

/-! ## Texts and forms -/

/-- The token is of the form, which is no operator between operands. -/
def Form.Fits (form : Form) (t : Token) : Prop :=
  match form with
  | .kind k => t.kind.blur .erasing = k.blur .erasing
  | .word text => t.writtenWord? = some text ∧ t.kind = wordKind text
  | .spelled k => t.kind.spells k = true
  | .zero k => k.startsNumber = true ∧ t.kind = k
  | .operator _ => False

theorem Form.Fits.reads {form : Form} {c : Cursor} (h : form.Fits c.current)
    (inside : c.current.isEnd = false) : form.Reads .text c c.advance := by
  cases form with
  | kind k => exact ⟨h, inside, rfl⟩
  | word text => exact ⟨h.1, h.2, rfl⟩
  | spelled k => exact ⟨h, rfl⟩
  | zero k => exact ⟨h.1, h.2, rfl⟩
  | operator o => cases h

/-- The lexeme that starts with a character and goes on with others is a token of the form. -/
def Form.Begins (form : Form) (c : Char) (cs behind : List Char) : Prop :=
  ∀ start, ∃ content, Lexeme.read start c (cs ++ behind) = ⟨cs.length, content⟩ ∧
    ∀ stop, ∃ t, content.token? ⟨start, stop⟩ = some t ∧ form.Fits t

/-- The text is cut into tokens of the forms. -/
inductive Spells : List Form → List Char → Prop where
  | nil : Spells [] []
  /-- Blank space between tokens. -/
  | gap {forms : List Form} {c : Char} {cs : List Char} (isGap : isGap c = true)
    (behind : Spells forms cs) : Spells forms (c :: cs)
  /-- A token, as it is read before what follows. -/
  | token {form : Form} {forms : List Form} {c : Char} {cs behind : List Char}
    (begins : form.Begins c cs behind) (rest : Spells forms behind) :
    Spells (form :: forms) (c :: cs ++ behind)
  /-- An operator between operands, with a blank behind it. -/
  | operator {o : Operator} {forms : List Form} {cs : List Char} (rest : Spells forms cs) :
    Spells (.operator o :: forms) (o.spelling.toList ++ ' ' :: cs)

/-! ## Reading what is spelled -/

namespace Lexing

variable {l : Lexing}

/-- The text is read as the given tokens. -/
def Leads (l : Lexing) (cs : List Char) (ts : List Token) : Prop :=
  lexFrom l 0 cs = ⟨ts.reverse ++ l.tokens, l.errors, l.offset + byteSize cs⟩

theorem leads_nil : l.Leads [] [] := rfl

theorem Leads.gap {c : Char} {cs : List Char} {ts : List Token} (gap : isGap c = true)
    (h : Leads ⟨l.tokens, l.errors, l.offset + c.utf8Size⟩ cs ts) : l.Leads (c :: cs) ts := by
  have read : Lexeme.read l.offset c cs = ⟨0, .blank⟩ := (Lexeme.Reads.gap gap).eq
  have size : byteSize [c] = c.utf8Size := by simp
  unfold Leads at h ⊢
  rw [lexFrom_cons, read]
  simp only [List.take_zero, List.drop_zero, Lexing.add, size]
  rw [h, byteSize_cons]
  simp only [Nat.add_assoc]

theorem Leads.token {c : Char} {cs behind : List Char} {content : LexemeContent} {t : Token}
    {ts : List Token} (read : Lexeme.read l.offset c (cs ++ behind) = ⟨cs.length, content⟩)
    (bears : content.token? ⟨l.offset, l.offset + byteSize (c :: cs)⟩ = some t)
    (h : Leads ⟨t :: l.tokens, l.errors, l.offset + byteSize (c :: cs)⟩ behind ts) :
    l.Leads (c :: cs ++ behind) (t :: ts) := by
  unfold Leads at h ⊢
  rw [List.cons_append, lexFrom_cons, read]
  simp only [List.take_left, List.drop_left]
  rw [Lexing.add_token bears, h, ← List.cons_append, byteSize_append]
  simp [Nat.add_assoc]

end Lexing

/-- The end of a text. -/
def Lexing.endBehind (l : Lexing) (cs : List Char) : Token :=
  .plain .endOfFile (.point (l.offset + byteSize cs))

/-- The tokens that are read of a text, from where they start on. -/
structure Lexing.Yields (l : Lexing) (forms : List Form) (cs : List Char) (ts : List Token) :
    Prop where
  /-- They are read without a fault. -/
  leads : l.Leads cs ts
  /-- None of them is an end or stands before the text. -/
  proper : ∀ t ∈ ts, t.isEnd = false ∧ l.offset ≤ t.span.start
  /-- They stand for the forms. -/
  stands : ∀ c : Cursor, c.Sees (ts ++ [l.endBehind cs]) →
    ∃ c', Stands .text forms c c' ∧ c'.atEnd = true

namespace Lexing.Yields

variable {l : Lexing} {forms : List Form} {cs : List Char} {ts : List Token}

theorem nil : l.Yields [] [] [] where
  leads := leads_nil
  proper := by simp
  stands c sees := by
    refine ⟨c, rfl, ?_⟩
    rw [Cursor.atEnd, sees.current]
    rfl

theorem gap {c : Char} (gap : isGap c = true)
    (h : Yields ⟨l.tokens, l.errors, l.offset + c.utf8Size⟩ forms cs ts) :
    l.Yields forms (c :: cs) ts where
  leads := h.leads.gap gap
  proper t ht := by
    obtain ⟨inside, start⟩ := h.proper t ht
    exact ⟨inside, by dsimp only at start; omega⟩
  stands d sees := by
    refine h.stands d ?_
    have same : endBehind ⟨l.tokens, l.errors, l.offset + c.utf8Size⟩ cs =
        l.endBehind (c :: cs) := by
      simp [endBehind, Nat.add_assoc]
    rwa [same]

/-- A token before others, whatever forms it stands for together with them. -/
theorem push {c : Char} {behind : List Char} {content : LexemeContent} {t : Token}
    {others : List Form} (read : Lexeme.read l.offset c (cs ++ behind) = ⟨cs.length, content⟩)
    (bears : content.token? ⟨l.offset, l.offset + byteSize (c :: cs)⟩ = some t)
    (h : Yields ⟨t :: l.tokens, l.errors, l.offset + byteSize (c :: cs)⟩ forms behind ts)
    (stands : ∀ d : Cursor, d.Sees (t :: (ts ++ [l.endBehind (c :: cs ++ behind)])) →
      t.isEnd = false → (∃ c', Stands .text forms d.advance c' ∧ c'.atEnd = true) →
      ∃ c', Stands .text others d c' ∧ c'.atEnd = true) :
    l.Yields others (c :: cs ++ behind) (t :: ts) where
  leads := .token read bears h.leads
  proper := by
    have proper := Lexeme.isProper_read l.offset c (cs ++ behind)
    rw [read] at proper
    refine List.forall_mem_cons.mpr ⟨⟨proper.isEnd_eq_false bears, ?_⟩, fun t ht => ?_⟩
    · rw [LexemeContent.span_of_token? bears]
    · obtain ⟨inside, start⟩ := h.proper t ht
      exact ⟨inside, by dsimp only at start; omega⟩
  stands d sees := by
    have proper := Lexeme.isProper_read l.offset c (cs ++ behind)
    rw [read] at proper
    have inside := proper.isEnd_eq_false bears
    refine stands d sees inside (h.stands d.advance ?_)
    have same : endBehind ⟨t :: l.tokens, l.errors, l.offset + byteSize (c :: cs)⟩ behind =
        l.endBehind (c :: cs ++ behind) := by
      simp only [endBehind, byteSize_append, Nat.add_assoc]
    rw [same]
    exact sees.advance inside

theorem token {form : Form} {c : Char} {behind : List Char} {content : LexemeContent} {t : Token}
    (read : Lexeme.read l.offset c (cs ++ behind) = ⟨cs.length, content⟩)
    (bears : content.token? ⟨l.offset, l.offset + byteSize (c :: cs)⟩ = some t)
    (fits : form.Fits t)
    (h : Yields ⟨t :: l.tokens, l.errors, l.offset + byteSize (c :: cs)⟩ forms behind ts) :
    l.Yields (form :: forms) (c :: cs ++ behind) (t :: ts) :=
  h.push read bears fun d sees inside ⟨c', rest, ends⟩ => by
    rw [← sees.current] at fits inside
    exact ⟨c', ⟨d.advance, fits.reads inside, rest⟩, ends⟩

/-! ### Operators between operands -/

/-- A blank, and what follows it: no token there touches what stands before the blank. -/
theorem apart {offset : Nat} {tokens : List Token} {errors : List LexError}
    (h : Yields ⟨tokens, errors, offset + 1⟩ forms cs ts) :
    ∃ next more, ts ++ [endBehind ⟨tokens, errors, offset + 1⟩ cs] = next :: more ∧
      offset < next.span.start := by
  cases ts with
  | nil =>
    refine ⟨_, [], rfl, ?_⟩
    simp only [endBehind, Token.plain, Span.point]
    omega
  | cons t ts => exact ⟨t, _, rfl, (h.proper t (List.mem_cons_self ..)).2⟩

/-- An operator that is a single token. -/
theorem single {o : Operator} (single : o.isComposed = false)
    (h : ∀ l : Lexing, ∃ ts, l.Yields forms cs ts) (l : Lexing) :
    ∃ t ts, l.Yields (.operator o :: forms) (o.spelling.toList ++ ' ' :: cs) (t :: ts) ∧
      t.span.start = l.offset := by
  have signs : ∃ c more, o.spelling.toList = c :: more ∧ ∀ start behind,
      Lexeme.read start c (more ++ ' ' :: behind) =
        ⟨more.length, .token (.operator o)⟩ := by
    cases o <;> first | exact ⟨_, _, rfl, fun _ _ => rfl⟩ | cases single
  obtain ⟨c, more, spelled, read⟩ := signs
  let t : Token := .plain (.operator o) ⟨l.offset, l.offset + byteSize (c :: more)⟩
  obtain ⟨ts, rest⟩ := h ⟨t :: l.tokens, l.errors, l.offset + byteSize (c :: more) + 1⟩
  obtain ⟨next, others, behind, far⟩ := rest.apart
  have blank : Yields ⟨t :: l.tokens, l.errors, l.offset + byteSize (c :: more)⟩ forms (' ' :: cs)
    ts := rest.gap rfl
  rw [spelled]
  refine ⟨t, ts, blank.push (read _ _) rfl fun d sees inside ⟨c', stands, ends⟩ => ?_, rfl⟩
  have first : d.current = t := sees.current
  refine ⟨c', ⟨d.advance, ⟨1, ?_, rfl⟩, stands⟩, ends⟩
  -- Nothing touches the operator, so it is not the start of a longer one.
  have size : (' ' : Char).utf8Size = 1 := rfl
  have same : l.endBehind (c :: more ++ ' ' :: cs) =
      endBehind ⟨t :: l.tokens, l.errors, l.offset + byteSize (c :: more) + 1⟩ cs := by
    simp [endBehind, Nat.add_assoc, size]
  rw [same, behind] at sees
  have second : d.peek 1 = next := sees.peek rfl
  have untouched : touching d 0 = false := by
    simp only [touching, d.peek_zero, first, second, beq_eq_false_iff_ne]
    exact Nat.ne_of_lt far
  have plain : composedAhead? d = none := by
    unfold composedAhead?
    rw [untouched, Bool.and_false]
    rfl
  unfold operatorAhead?
  rw [plain, first]
  simp [t, Token.plain, single]

end Lexing.Yields

/-- The operator that a touching `>` makes of another one behind it. -/
def Operator.joined? : Operator → Option Operator
  | .greater => some .shiftRight
  | .shiftRight => some .shiftRightZero
  | .greaterEqual => some .shiftRightAssign
  | .shiftRightAssign => some .shiftRightZeroAssign
  | _ => none

theorem isComposed_of_composedAhead? {c : Cursor} {o : Operator} {n : Nat}
    (h : composedAhead? c = some (o, n)) : o.isComposed = true := by
  unfold composedAhead? at h
  split at h
  · split at h
    · cases h
      rfl
    · split at h
      · split at h <;>
          cases h <;> rfl
      · cases h
        rfl
    · cases h
  · cases h

/-- A touching `>` before an operator makes another operator of it. -/
theorem composedAhead?_join {c : Cursor} {o joined : Operator} {n : Nat}
    (first : c.current.kind = .operator .greater) (touch : touching c 0 = true)
    (next : operatorAhead? c.advance = some (o, n)) (join : o.joined? = some joined) :
    composedAhead? c = some (joined, n + 1) := by
  have inside := isEnd_of_greater first
  have one : c.peek 1 = c.advance.current := Cursor.peek_one inside
  have two : c.peek 2 = c.advance.peek 1 := Cursor.peek_succ inside 1
  have touch' : touching c 1 = touching c.advance 0 := by
    simp only [touching, Cursor.peek_succ inside]
  obtain ⟨kinds, rfl⟩ := operatorAhead?_kinds next
  -- The operator behind is composed itself, or nothing joins it.
  have behind : composedAhead? c.advance = if o.isComposed then some (o, o.kinds.length) else none := by
    unfold operatorAhead? at next
    cases found : composedAhead? c.advance with
    | some composed =>
      rw [found] at next
      cases next
      rw [isComposed_of_composedAhead? found]
      rfl
    | none =>
      rw [found] at next
      cases kind : c.advance.current.kind with
      | operator p =>
        simp only [kind] at next
        split at next
        · cases next
        · next single =>
          obtain ⟨rfl, _⟩ := Prod.mk.inj (Option.some.inj next)
          rw [if_neg single]
      | _ => simp [kind] at next
  unfold composedAhead? at behind ⊢
  rw [one, two, touch', touch, first]
  cases o <;> cases join
  case greaterEqual => simp [kinds.1, Operator.kinds]
  all_goals
    rw [kinds.1] at behind ⊢
    cases near : touching c.advance 0 <;> rw [near] at behind
    · simp_all [Operator.kinds, Operator.isComposed]
    · cases third : (c.advance.peek 1).kind with
      | operator q =>
        rw [third] at behind
        cases q <;> simp_all [Operator.kinds, Operator.isComposed]
        -- With a third `>` the tokens behind would be composed otherwise.
        all_goals
          split at behind
          · split at behind <;> cases behind
          · cases behind
      | _ => simp_all [Operator.kinds, Operator.isComposed]

theorem operatorAhead?_join {c : Cursor} {o joined : Operator} {n : Nat}
    (first : c.current.kind = .operator .greater) (touch : touching c 0 = true)
    (next : operatorAhead? c.advance = some (o, n)) (join : o.joined? = some joined) :
    operatorAhead? c = some (joined, n + 1) := by
  unfold operatorAhead?
  rw [composedAhead?_join first touch next join]

namespace Lexing.Yields

variable {l : Lexing} {forms : List Form} {cs : List Char} {ts : List Token}

theorem join {o joined : Operator} (join : o.joined? = some joined)
    (h : ∀ l : Lexing, ∃ t ts, l.Yields (.operator o :: forms) ('>' :: cs) (t :: ts) ∧
      t.span.start = l.offset) (l : Lexing) :
    ∃ t ts, l.Yields (.operator joined :: forms) ('>' :: '>' :: cs) (t :: ts) ∧
      t.span.start = l.offset := by
  let t : Token := .plain (.operator .greater) ⟨l.offset, l.offset + byteSize ['>']⟩
  obtain ⟨next, ts, rest, touches⟩ := h ⟨t :: l.tokens, l.errors, l.offset + byteSize ['>']⟩
  refine ⟨t, next :: ts,
    rest.push (show Lexeme.read _ '>' ([] ++ _) = ⟨([] : List Char).length, _⟩ from rfl) rfl
      fun d sees inside ⟨c', ⟨c₁, ⟨n, ahead, moved⟩, stands⟩, ends⟩ => ?_,
    rfl⟩
  have first : d.current = t := sees.current
  have second : d.peek 1 = next := sees.peek rfl
  refine ⟨c', ⟨c₁, ⟨n + 1, operatorAhead?_join ?_ ?_ ahead join, moved⟩, stands⟩, ends⟩
  · rw [first]
    rfl
  · simp only [touching, d.peek_zero, first, second, touches]
    simp [t, Token.plain]

theorem operator {o : Operator} (h : ∀ l : Lexing, ∃ ts, l.Yields forms cs ts) (l : Lexing) :
    ∃ ts, l.Yields (.operator o :: forms) (o.spelling.toList ++ ' ' :: cs) ts := by
  suffices ∃ t ts, l.Yields (.operator o :: forms) (o.spelling.toList ++ ' ' :: cs) (t :: ts) ∧
      t.span.start = l.offset from
    this.elim fun t rest => rest.elim fun ts found => ⟨t :: ts, found.1⟩
  have right := join (o := .greater) rfl (single rfl h)
  have assign := join (o := .greaterEqual) rfl (single rfl h)
  cases composed : o.isComposed with
  | false => exact single composed h l
  | true =>
    cases o with
    | shiftRight => exact right l
    | shiftRightZero => exact join (o := .shiftRight) rfl right l
    | shiftRightAssign => exact assign l
    | shiftRightZeroAssign => exact join (o := .shiftRightAssign) rfl assign l
    | _ => cases composed

end Lexing.Yields

/-- What is spelled is read without faults, and stands in its tokens. -/
theorem Lexing.exists_yields {forms : List Form} {cs : List Char} (h : Spells forms cs)
    (l : Lexing) : ∃ ts, l.Yields forms cs ts := by
  induction h generalizing l with
  | nil => exact ⟨[], .nil⟩
  | gap gap _ ih =>
    obtain ⟨ts, h⟩ := ih _
    exact ⟨ts, h.gap gap⟩
  | @token form forms c cs behind begins _ ih =>
    obtain ⟨content, read, bears⟩ := begins l.offset
    obtain ⟨t, bears, fits⟩ := bears (l.offset + byteSize (c :: cs))
    obtain ⟨ts, h⟩ := ih _
    exact ⟨t :: ts, h.token read bears fits⟩
  | operator _ ih => exact Lexing.Yields.operator ih l

/-- A text that spells forms is read as tokens in which the forms stand, up to the end. -/
theorem stands_of_spells {forms : List Form} {cs : List Char} (h : Spells forms cs) :
    ∃ tokens, lex (String.ofList cs) = .ok tokens ∧
      (Cursor.ofTokens tokens).strayAfterEnd? = none ∧
      ∃ c', Stands .text forms (Cursor.ofTokens tokens) c' ∧ c'.atEnd = true := by
  obtain ⟨ts, leads, proper, stands⟩ := Lexing.exists_yields h ⟨[], [], 0⟩
  let ending := Lexing.endBehind ⟨[], [], 0⟩ cs
  have lexed : lex (String.ofList cs) = .ok (ts ++ [ending]) := by
    unfold lex
    rw [String.toList_ofList, leads]
    simp [ending, Lexing.endBehind]
  have row : (Cursor.ofTokens (ts ++ [ending])).tokens = (ts ++ [ending]).toArray :=
    tokens_of_lex lexed
  refine ⟨ts ++ [ending], lexed, ?_, stands _ ⟨[], row, rfl⟩⟩
  have found : (ts ++ [ending]).findIdx? Token.isEnd = some ts.length := by
    rw [List.findIdx?_append, List.findIdx?_eq_none_iff.mpr fun t ht => (proper t ht).1]
    have last : [ending].findIdx? Token.isEnd = some 0 := rfl
    rw [last, Option.none_or, Option.map_some, Nat.zero_add]
  unfold Cursor.strayAfterEnd?
  rw [row]
  simp [found]

end Apex
