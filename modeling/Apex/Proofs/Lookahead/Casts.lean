import Apex.Proofs.Echo.Lookahead
import Apex.Proofs.Nesting.Cap
import Apex.Proofs.Reading.Expressions

/-!
# Looking ahead for a cast

Whether a parenthesis opens a cast is decided on the kinds of the tokens behind it, before any type
is read. So types are recognised twice, once by dropping kinds from a window of limited size and
once by the grammar. Both stop at the same token: the grammar reads every type that the window
shows up to a token behind it, and the window shows every type that the grammar reads, if it
reaches far enough.
-/

namespace Apex

namespace Grammar

open Apex.Parser

variable {c d c₁ : Cursor} {n m : Nat} {k : TokenKind} {rest : List TokenKind}

/-! ## Windows -/

/-- Of the `n` tokens ahead at `c`, the last `m` are ahead at `c₁`. -/
structure Leaves (c : Cursor) (n : Nat) (c₁ : Cursor) (m : Nat) : Prop where
  upto : c.Upto c₁
  count : c₁.position + m = c.position + n

namespace Leaves

variable {c₂ : Cursor} {l : Nat}

theorem refl (c : Cursor) (n : Nat) : Leaves c n c n := ⟨.refl c, rfl⟩

theorem trans (h : Leaves c n c₁ m) (h' : Leaves c₁ m c₂ l) : Leaves c n c₂ l :=
  ⟨h.upto.trans h'.upto, h'.count.trans h.count⟩

theorem advance (inside : c.current.isEnd = false) (n : Nat) : Leaves c (n + 1) c.advance n := by
  refine ⟨c.upto_advance, ?_⟩
  rw [Cursor.advance_of_not_atEnd inside]
  show c.position + 1 + n = c.position + (n + 1)
  omega

theorem eq_of_same (h : Leaves c n c m) : n = m := by
  have := h.count
  omega

theorem split (h : Leaves c n c₂ l) (first : c.Upto c₁) (second : c₁.Upto c₂) :
    ∃ m, Leaves c n c₁ m ∧ Leaves c₁ m c₂ l := by
  have := first.position
  have := second.position
  have := h.count
  exact ⟨c.position + n - c₁.position, ⟨first, by omega⟩, second, by omega⟩

/-- If the place is not before the next token, that token is among those passed. -/
theorem behind (h : Leaves c n c₁ m) (inside : c.current.isEnd = false) (upto : c.advance.Upto c₁) :
    ∃ n', n = n' + 1 ∧ Leaves c.advance n' c₁ m := by
  have step : c.advance.position = c.position + 1 := by rw [Cursor.advance_of_not_atEnd inside]
  have := upto.position
  have := h.count
  exact ⟨n - 1, by omega, upto, by omega⟩

end Leaves

theorem kindsFrom_head (c : Cursor) (n : Nat) :
    ∃ rest, kindsFrom c (n + 1) = c.current.kind :: rest := by
  simp [kindsFrom, List.range_succ_eq_map, c.peek_zero]

theorem kind_of_kindsFrom (h : kindsFrom c n = k :: rest) : c.current.kind = k := by
  obtain _ | n := n
  · cases h
  · obtain ⟨_, head⟩ := kindsFrom_head c n
    rw [head] at h
    exact (List.cons.inj h).1

theorem kindsFrom_uncons (h : kindsFrom c n = k :: rest) (inside : k ≠ .endOfFile) :
    c.current.kind = k ∧ ∃ m, Leaves c n c.advance m ∧ rest = kindsFrom c.advance m := by
  have kind := kind_of_kindsFrom h
  have notEnd : c.current.isEnd = false := isEnd_of_kind kind inside
  obtain _ | n := n
  · cases h
  · rw [kindsFrom_succ n notEnd] at h
    exact ⟨kind, n, .advance notEnd n, (List.cons.inj h).2.symm⟩

/-- The further parts of a dotted name, as the window shows them. -/
theorem dropSegments_items (c : Cursor) (n : Nat) :
    ∃ segments c₁ m, Items SegmentItem c segments c₁ ∧ Leaves c n c₁ m ∧
      dropSegments (kindsFrom c n) = kindsFrom c₁ m := by
  generalize window : kindsFrom c n = kinds
  fun_induction dropSegments kinds generalizing c n with
  | case1 text kinds ih =>
    obtain ⟨dot, n₁, passed, behind⟩ := kindsFrom_uncons window (by simp)
    obtain ⟨name, n₂, passed', behind⟩ := kindsFrom_uncons behind.symm (by simp)
    obtain ⟨segments, c₁, m, row, left, drop⟩ := ih _ n₂ behind.symm
    have ahead : (c.peek 1).kind.isName = true := by
      rw [Cursor.peek_one (isEnd_of_kind dot (by simp)), name]
      rfl
    have run := identifier_ok.mpr ⟨text, name, rfl⟩
    exact ⟨_, c₁, m, .cons ⟨dot, ahead, run⟩ row, (passed.trans passed').trans left, drop⟩
  | case2 kinds other => exact ⟨[], c, n, .nil c, .refl c n, window.symm⟩

/-- The pairs of brackets, as the window shows them. -/
theorem dropBrackets_items (c : Cursor) (n : Nat) :
    ∃ count c₁ m, Items BracketsItem c (List.replicate count ()) c₁ ∧ Leaves c n c₁ m ∧
      dropBrackets (kindsFrom c n) = kindsFrom c₁ m := by
  generalize window : kindsFrom c n = kinds
  fun_induction dropBrackets kinds generalizing c n with
  | case1 kinds ih =>
    obtain ⟨opening, n₁, passed, behind⟩ := kindsFrom_uncons window (by simp)
    obtain ⟨closing, n₂, passed', behind⟩ := kindsFrom_uncons behind.symm (by simp)
    obtain ⟨count, c₁, m, row, left, drop⟩ := ih _ n₂ behind.symm
    refine ⟨count + 1, c₁, m, .cons ⟨⟨opening, ?_⟩, rfl⟩ row, (passed.trans passed').trans left, drop⟩
    rw [Cursor.peek_one (isEnd_of_kind opening (by simp)), closing]
  | case2 kinds other => exact ⟨0, c, n, .nil c, .refl c n, window.symm⟩

/-- A window that starts with a type starts with a name. -/
theorem dropType_succ {limit : Nat} {kinds : List TokenKind}
    (h : dropType (limit + 1) (kindsFrom c n) = some kinds) :
    ∃ text m, c.current.kind = .name text ∧ Leaves c n c.advance m ∧
      (match dropSegments (kindsFrom c.advance m) with
        | .operator .less :: kinds => (dropArguments limit kinds).map dropBrackets
        | kinds => some (dropBrackets kinds)) = some kinds := by
  generalize window : kindsFrom c n = row at h
  match row with
  | .name text :: row =>
    obtain ⟨name, m, passed, rfl⟩ := kindsFrom_uncons window (by simp)
    exact ⟨text, m, name, passed, h⟩
  | [] | .keyword _ :: _ | .integer _ :: _ | .long _ :: _ | .decimal _ :: _ | .string _ :: _
  | .soql _ :: _ | .sosl _ :: _ | .operator _ :: _ | .punctuation _ :: _ | .endOfFile :: _ => cases h

/-! ## What the grammar reads is seen -/

theorem dropSegments_stays (h : ¬SegmentAhead c) (n : Nat) :
    dropSegments (kindsFrom c n) = kindsFrom c n := by
  generalize window : kindsFrom c n = kinds
  unfold dropSegments
  split
  · next text behind =>
    obtain ⟨dot, n₁, _, behind⟩ := kindsFrom_uncons window (by simp)
    obtain ⟨name, _⟩ := kindsFrom_uncons behind.symm (by simp)
    refine absurd ⟨dot, ?_⟩ h
    rw [Cursor.peek_one (isEnd_of_kind dot (by simp)), name]
    rfl
  · rfl

theorem dropBrackets_stays (h : ¬BracketsAhead c) (n : Nat) :
    dropBrackets (kindsFrom c n) = kindsFrom c n := by
  generalize window : kindsFrom c n = kinds
  unfold dropBrackets
  split
  · next behind =>
    obtain ⟨opening, n₁, _, behind⟩ := kindsFrom_uncons window (by simp)
    obtain ⟨closing, _⟩ := kindsFrom_uncons behind.symm (by simp)
    refine absurd ⟨opening, ?_⟩ h
    rw [Cursor.peek_one (isEnd_of_kind opening (by simp)), closing]
  · rfl

theorem dropSegments_of_items {segments : List Ident} (h : Items SegmentItem c segments c₁)
    (ends : ¬SegmentAhead c₁) :
    c.Upto c₁ ∧ ∀ ⦃n m⦄, Leaves c n c₁ m → dropSegments (kindsFrom c n) = kindsFrom c₁ m := by
  induction h with
  | nil c =>
    refine ⟨.refl c, fun n m left => ?_⟩
    rw [dropSegments_stays ends, left.eq_of_same]
  | @cons c x c₂ segments c₁ first row ih =>
    obtain ⟨dot, -, name⟩ := first
    obtain ⟨text, kind, place⟩ := identifier_ok.mp name
    cases place
    obtain ⟨upto, drop⟩ := ih ends
    have dotInside := isEnd_of_kind dot (by simp)
    have nameInside := isEnd_of_kind kind (by simp)
    refine ⟨((c.upto_advance).trans (c.advance.upto_advance)).trans upto, fun n m left => ?_⟩
    obtain ⟨n₁, rfl, left₁⟩ := left.behind dotInside (c.advance.upto_advance.trans upto)
    obtain ⟨n₂, rfl, left₂⟩ := left₁.behind nameInside upto
    rw [kindsFrom_succ _ dotInside, kindsFrom_succ _ nameInside, dot, kind, dropSegments]
    exact drop left₂

theorem dropBrackets_of_items {count : Nat}
    (h : Items BracketsItem c (List.replicate count ()) c₁) (ends : ¬BracketsAhead c₁) :
    c.Upto c₁ ∧ ∀ ⦃n m⦄, Leaves c n c₁ m → dropBrackets (kindsFrom c n) = kindsFrom c₁ m := by
  generalize List.replicate count () = pairs at h
  induction h with
  | nil c =>
    refine ⟨.refl c, fun n m left => ?_⟩
    rw [dropBrackets_stays ends, left.eq_of_same]
  | @cons c x c₂ segments c₁ first row ih =>
    obtain ⟨⟨opening, closing⟩, rfl⟩ := first
    obtain ⟨upto, drop⟩ := ih ends
    have openInside := isEnd_of_kind opening (by simp)
    rw [Cursor.peek_one openInside] at closing
    have closeInside := isEnd_of_kind closing (by simp)
    refine ⟨((c.upto_advance).trans (c.advance.upto_advance)).trans upto, fun n m left => ?_⟩
    obtain ⟨n₁, rfl, left₁⟩ := left.behind openInside (c.advance.upto_advance.trans upto)
    obtain ⟨n₂, rfl, left₂⟩ := left₁.behind closeInside upto
    rw [kindsFrom_succ _ openInside, kindsFrom_succ _ closeInside, opening, closing, dropBrackets]
    exact drop left₂

/-- Wherever the parser reads a type, dropping kinds stops where the parser does. One step down in
the limit for every token is enough. -/
def IsSeen (type : Parser TypeRef) : Prop :=
  ∀ ⦃c t c₁⦄, type c = .ok (t, c₁) → c.Before c₁ ∧
    ∀ ⦃n m limit⦄, Leaves c n c₁ m → c₁.position ≤ c.position + limit →
      dropType limit (kindsFrom c n) = some (kindsFrom c₁ m)

/-- Type arguments and the bracket behind them. -/
theorem dropArguments_of_items {argument : Parser TypeRef} (h : IsSeen argument) {first : TypeRef}
    {more : List TypeRef} {c₂ : Cursor} (run : argument c = .ok (first, c₁))
    (row : Items (CommaItem argument) c₁ more c₂) (close : c₂.current.kind = .operator .greater) :
    c.Before c₂ ∧ ∀ ⦃n m limit⦄, Leaves c n c₂.advance m →
      c₂.advance.position ≤ c.position + limit →
      dropArguments limit (kindsFrom c n) = some (kindsFrom c₂.advance m) := by
  induction row generalizing c first with
  | nil c₁ =>
    obtain ⟨moved, drop⟩ := h run
    have inside := isEnd_of_kind close (by simp)
    refine ⟨moved, fun n m limit left enough => ?_⟩
    have passed := (Cursor.before_advance inside).position
    have := moved.position
    obtain ⟨limit, rfl⟩ : ∃ l, limit = l + 1 := ⟨limit - 1, by omega⟩
    obtain ⟨n₁, left₁, left₂⟩ := left.split moved.upto c₁.upto_advance
    obtain ⟨n₂, rfl, left₃⟩ := left₂.behind inside (.refl _)
    rw [dropArguments, drop left₁ (by omega), kindsFrom_succ _ inside, close, left₃.eq_of_same]
  | @cons c₁ x c₃ xs c₂ next row ih =>
    obtain ⟨comma, runNext⟩ := next
    obtain ⟨moved, drop⟩ := h run
    obtain ⟨movedNext, dropNext⟩ := ih runNext close
    have inside := isEnd_of_kind comma (by simp)
    have passed := Cursor.before_advance inside
    have upto := movedNext.upto.trans c₂.upto_advance
    refine ⟨(moved.trans passed).trans movedNext, fun n m limit left enough => ?_⟩
    have := passed.position
    have := moved.position
    have := upto.position
    obtain ⟨limit, rfl⟩ : ∃ l, limit = l + 1 := ⟨limit - 1, by omega⟩
    obtain ⟨n₁, left₁, left₂⟩ := left.split moved.upto (passed.upto.trans upto)
    obtain ⟨n₂, rfl, left₃⟩ := left₂.behind inside upto
    rw [dropArguments, drop left₁ (by omega), kindsFrom_succ _ inside, comma]
    exact dropNext left₃ (by omega)

theorem isSeen_typeRef {argument : Parser TypeRef} (h : IsSeen argument) :
    IsSeen (typeRef argument) := by
  intro c t c₁ run
  obtain ⟨_, c₂, count, c₃, element, brackets, place⟩ := typeRef_ok.mp run
  cases place
  obtain ⟨_, c₄, types, c₅, segments, arguments, place⟩ := elementType_ok.mp element
  cases place
  obtain ⟨_, c₆, more, -, name, row, ends⟩ := typeSegments_ok.mp segments
  obtain ⟨text, kind, place⟩ := identifier_ok.mp name
  cases place
  obtain ⟨pairs, noPair⟩ := arrayBrackets_ok.mp brackets
  obtain ⟨uptoName, dropName⟩ := dropSegments_of_items row ends
  obtain ⟨uptoPairs, dropPairs⟩ := dropBrackets_of_items pairs noPair
  have inside := isEnd_of_kind kind (by simp)
  have passed := Cursor.before_advance inside
  rcases typeArguments_ok.mp arguments with ⟨less, types, c₆, list, close, place⟩ | ⟨noLess, place⟩
  · cases place
    obtain ⟨first, c₇, more, -, run, row, -⟩ := commaSeparated_items list
    obtain ⟨moved, drop⟩ := dropArguments_of_items h run row close
    have lessInside := isEnd_of_kind less (by simp)
    have passedLess := Cursor.before_advance lessInside
    have uptoArguments := moved.upto.trans c₆.upto_advance
    have upto := passedLess.upto.trans (uptoArguments.trans uptoPairs)
    refine ⟨passed.trans_upto (uptoName.trans upto), fun n m limit left enough => ?_⟩
    have := passed.position
    have := uptoName.position
    have := passedLess.position
    have := uptoPairs.position
    have := upto.position
    obtain ⟨limit, rfl⟩ : ∃ l, limit = l + 1 := ⟨limit - 1, by omega⟩
    obtain ⟨n₁, rfl, left₁⟩ := left.behind inside (uptoName.trans upto)
    obtain ⟨n₂, left₂, left₃⟩ := left₁.split uptoName upto
    obtain ⟨n₃, rfl, left₄⟩ := left₃.behind lessInside (uptoArguments.trans uptoPairs)
    obtain ⟨n₄, left₅, left₆⟩ := left₄.split uptoArguments uptoPairs
    rw [kindsFrom_succ _ inside, kind, dropType, dropName left₂, kindsFrom_succ _ lessInside, less]
    show (dropArguments limit _).map dropBrackets = _
    rw [drop left₅ (by omega), Option.map_some, dropPairs left₆]
  · cases place
    refine ⟨passed.trans_upto (uptoName.trans uptoPairs), fun n m limit left enough => ?_⟩
    have := passed.position
    have := (uptoName.trans uptoPairs).position
    obtain ⟨limit, rfl⟩ : ∃ l, limit = l + 1 := ⟨limit - 1, by omega⟩
    obtain ⟨n₁, rfl, left₁⟩ := left.behind inside (uptoName.trans uptoPairs)
    obtain ⟨n₂, left₂, left₃⟩ := left₁.split uptoName uptoPairs
    rw [kindsFrom_succ _ inside, kind, dropType, dropName left₂]
    split
    · next kinds window => exact (noLess (kindsFrom_uncons window (by simp)).1).elim
    · rw [dropPairs left₃]

/-- Every type the grammar reads is seen. -/
theorem isSeen_levels (depth : Nat) : IsSeen (levels depth).typeRef := by
  induction depth with
  | zero =>
    intro c t c₁ run
    cases fail_ok.mp run
  | succ depth ih => exact isSeen_typeRef ih

/-! ## What is seen is read by the grammar -/

theorem typeRef_of_parts {argument : Parser TypeRef} {text : String} {segments : List Ident}
    {types : List TypeRef} {count : Nat} {c₂ c₃ : Cursor} (name : c.current.kind = .name text)
    (row : Items SegmentItem c.advance segments c₁) (ends : ¬SegmentAhead c₁)
    (arguments : typeArguments argument c₁ = .ok (types, c₂))
    (pairs : Items BracketsItem c₂ (List.replicate count ()) c₃) (noPair : ¬BracketsAhead c₃) :
    ∃ t, typeRef argument c = .ok (t, c₃) := by
  have first := identifier_ok.mpr ⟨text, name, rfl⟩
  have segments := typeSegments_ok.mpr ⟨_, _, _, rfl, first, row, ends⟩
  have element := elementType_ok.mpr ⟨_, _, _, _, segments, arguments, rfl⟩
  exact ⟨_, typeRef_ok.mpr ⟨_, _, _, _, element, arrayBrackets_ok.mpr ⟨pairs, noPair⟩, rfl⟩⟩

/-- A type that ends before a token which is part of no type, and type arguments with the bracket
behind them, are read at every depth that is not less than the limit. -/
theorem reads_of_drop (limit : Nat) :
    (∀ depth, limit ≤ depth → ∀ {c n k rest}, k ≠ .punctuation .dot →
      k ≠ .punctuation .openBracket → dropType limit (kindsFrom c n) = some (k :: rest) →
      ∃ t c₁ m, typeRef (levels depth).typeRef c = .ok (t, c₁) ∧ Leaves c n c₁ m ∧
        kindsFrom c₁ m = k :: rest) ∧
    (∀ depth, limit ≤ depth → ∀ {c n rest}, dropArguments limit (kindsFrom c n) = some rest →
      ∃ first c₁ more c₂ m, (levels depth).typeRef c = .ok (first, c₁) ∧
        Items (CommaItem (levels depth).typeRef) c₁ more c₂ ∧
        c₂.current.kind = .operator .greater ∧ Leaves c n c₂.advance m ∧
        kindsFrom c₂.advance m = rest) := by
  induction limit with
  | zero =>
    constructor
    · intro depth _ c n k rest _ _ drop
      simp [dropType] at drop
    · intro depth _ c n rest drop
      simp [dropArguments] at drop
  | succ limit ih =>
    obtain ⟨ihType, ihArguments⟩ := ih
    constructor
    · intro depth enough c n k rest dot bracket drop
      obtain ⟨text, n₁, name, passed, drop⟩ := dropType_succ drop
      obtain ⟨segments, c₁, n₂, row, left, dropped⟩ := dropSegments_items c.advance n₁
      rw [dropped] at drop
      split at drop
      · next kinds window =>
        obtain ⟨less, n₃, passedLess, rfl⟩ := kindsFrom_uncons window (by simp)
        obtain ⟨behind, list, drop⟩ := Option.map_eq_some_iff.mp drop
        obtain ⟨first, c₂, more, c₃, l, run, items, close, leftList, rfl⟩ :=
          ihArguments depth (by omega) list
        obtain ⟨count, c₄, m, pairs, leftPairs, droppedPairs⟩ := dropBrackets_items c₃.advance l
        have window := droppedPairs.symm.trans drop
        have kind := kind_of_kindsFrom window
        have reads : ReadsOn c₁.advance.tokens (levels depth).typeRef :=
          fun _ run => (isSeen_levels depth run).1
        have arguments := typeArguments_ok.mpr
          (.inl ⟨less, _, _, commaSeparated_of_items run items (by simp [close]) reads, close, rfl⟩)
        obtain ⟨t, run⟩ := typeRef_of_parts name row (by simp [less]) arguments pairs
          (by simp [kind, bracket])
        exact ⟨t, c₄, m, run, (((passed.trans left).trans passedLess).trans leftList).trans leftPairs,
          window⟩
      · next noLess =>
        obtain ⟨count, c₂, m, pairs, leftPairs, droppedPairs⟩ := dropBrackets_items c₁ n₂
        have window := droppedPairs.symm.trans (Option.some.inj drop)
        have kind := kind_of_kindsFrom window
        obtain _ | n₂ := n₂
        · simp [kindsFrom, dropBrackets] at drop
        obtain ⟨others, head⟩ := kindsFrom_head c₁ n₂
        have notDot : c₁.current.kind ≠ .punctuation .dot := by
          intro isDot
          rw [head, isDot, dropBrackets] at drop
          · exact dot (List.cons.inj (Option.some.inj drop)).1.symm
          · simp
        have notLess : c₁.current.kind ≠ .operator .less :=
          fun less => noLess others (by rw [head, less])
        obtain ⟨t, run⟩ := typeRef_of_parts name row (by simp [notDot])
          (typeArguments_ok.mpr (.inr ⟨notLess, rfl⟩)) pairs (by simp [kind, bracket])
        exact ⟨t, c₂, m, run, (passed.trans left).trans leftPairs, window⟩
    · intro depth enough c n rest drop
      obtain ⟨depth, rfl⟩ : ∃ d, depth = d + 1 := ⟨depth - 1, by omega⟩
      have enough : limit ≤ depth := by omega
      rw [dropArguments] at drop
      split at drop
      · next kinds first =>
        obtain ⟨t, c₁, m, run, left, behind⟩ := ihType depth enough (by simp) (by simp) first
        obtain ⟨comma, n₁, passed, rfl⟩ := kindsFrom_uncons behind (by simp)
        obtain ⟨t', c₂, more, c₃, l, runNext, row, close, left', rest⟩ :=
          ihArguments (depth + 1) (by omega) drop
        exact ⟨t, c₁, t' :: more, c₃, l, run, .cons ⟨comma, runNext⟩ row, close,
          (left.trans passed).trans left', rest⟩
      · next kinds first =>
        obtain ⟨t, c₁, m, run, left, behind⟩ := ihType depth enough (by simp) (by simp) first
        obtain ⟨close, n₁, passed, rfl⟩ := kindsFrom_uncons behind (by simp)
        exact ⟨t, c₁, [], c₁, n₁, run, .nil c₁, close, left.trans passed, Option.some.inj drop⟩
      · cases drop

/-! ## Depths -/

theorem typeRef_levels_refines (depth extra : Nat) :
    Parser.Refines ParseError.isTooDeep (levels depth).typeRef (levels (depth + extra)).typeRef := by
  induction depth with
  | zero => exact fun c => .inl ⟨_, rfl, rfl⟩
  | succ depth ih =>
    rw [Nat.succ_add]
    exact typeRef_refines ih

/-- A type read at some depth is read at every depth that has room for it. -/
theorem typeRef_of_hasRoom {depth depth' : Nat} {t : TypeRef}
    (run : typeRef (levels depth').typeRef c = .ok (t, c₁))
    (room : HasRoom (typeRef (levels depth).typeRef) c) :
    typeRef (levels depth).typeRef c = .ok (t, c₁) := by
  rcases Nat.le_total depth depth' with le | le
  · obtain ⟨extra, rfl⟩ := Nat.exists_eq_add_of_le le
    rcases typeRef_refines (typeRef_levels_refines depth extra) c with ⟨e, stopped, deep⟩ | same
    · rw [room e stopped] at deep
      cases deep
    · rw [same, run]
  · obtain ⟨extra, rfl⟩ := Nat.exists_eq_add_of_le le
    rcases typeRef_refines (typeRef_levels_refines depth' extra) c with ⟨e, stopped, _⟩ | same
    · rw [run] at stopped
      cases stopped
    · rw [← same, run]

/-! ## Casts -/

/-- The kinds that are looked at to find a cast, those behind the parenthesis. -/
def castTokens (c : Cursor) : List TokenKind :=
  (List.range castWindow).map fun i => (c.peek (i + 1)).kind

/-- How many tokens on the type ends that the look ahead for a cast finds. -/
def typeEnd? (c : Cursor) : Option Nat :=
  (dropType (2 * castWindow) (castTokens c)).map fun rest => castWindow + 1 - rest.length

/-- A cast whose parentheses have been read. -/
def castOperand (deeper : Deeper) (start : Span) (type : TypeRef) : Parser Expr := do
  let operand ← deeper.unary
  return .cast (start.merge operand.span) type operand

theorem length_kindsFrom (c : Cursor) (n : Nat) : (kindsFrom c n).length = n := by
  simp [kindsFrom]

theorem castTokens_eq (inside : c.current.isEnd = false) :
    castTokens c = kindsFrom c.advance castWindow := by
  simp only [castTokens, kindsFrom, Cursor.peek_succ inside]

theorem castAhead_eq_looksLikeCast (paren : c.current.kind = .punctuation .openParen) :
    castAhead c = looksLikeCast (kindsFrom c.advance castWindow) := by
  rw [← castTokens_eq (isEnd_of_kind paren (by simp))]
  simp [castAhead, castTokens, paren]

/-- A prefix operand in parentheses that look like a cast is read as a cast. -/
theorem unary_of_castAhead {D : Deeper} {type : TypeRef} (cast : castAhead c = true)
    (run : typeRef D.typeRef c.advance = .ok (type, c₁))
    (close : c₁.current.kind = .punctuation .closeParen) :
    unary D c = castOperand D c.current.span type c₁.advance := by
  have paren := castAhead_openParen cast
  have opened : expect (.punctuation .openParen) c = .ok (c.current.span, c.advance) :=
    expect_ok.mpr ⟨paren, rfl⟩
  have closed : expect (.punctuation .closeParen) c₁ = .ok (c₁.current.span, c₁.advance) :=
    expect_ok.mpr ⟨close, rfl⟩
  have here : here c = .ok (c.current.span, c) := rfl
  have kind : kind c = .ok (.punctuation .openParen, c) := by rw [← paren]; rfl
  have get : (get : Parser Cursor) c = .ok (c, c) := rfl
  rw [unary, bind_eq_of_ok here, bind_eq_of_ok kind]
  dsimp only [TokenKind.operator?, Option.bind]
  rw [bind_eq_of_ok get, if_pos cast, bind_eq_of_ok opened, bind_eq_of_ok run,
    bind_eq_of_ok closed]
  rfl

/-- What looks like a cast has a type in its parentheses, which ends where it was seen to end. -/
theorem reads_of_castAhead (cast : castAhead c = true) :
    ∃ depth t c₁, typeRef (levels depth).typeRef c.advance = .ok (t, c₁) ∧
      c₁.current.kind = .punctuation .closeParen ∧ typeEnd? c = some (c₁.position - c.position) := by
  have paren := castAhead_openParen cast
  have inside := isEnd_of_kind paren (by simp)
  have step : c.advance.position = c.position + 1 := by rw [Cursor.advance_of_not_atEnd inside]
  rw [castAhead_eq_looksLikeCast paren, looksLikeCast, length_kindsFrom] at cast
  split at cast
  · next operand rest drop =>
    obtain ⟨t, c₁, m, run, left, window⟩ :=
      (reads_of_drop _).1 _ (Nat.le_refl _) (by simp) (by simp) drop
    refine ⟨_, t, c₁, run, kind_of_kindsFrom window, ?_⟩
    have size := congrArg List.length window
    rw [length_kindsFrom] at size
    have := left.count
    rw [typeEnd?, castTokens_eq inside, drop, Option.map_some, ← size]
    congr 1
    omega
  · cases cast

/-- A type before a closing parenthesis and the start of an operand is seen to be a cast, if the
operand is not too far away. -/
theorem castAhead_of_reads {depth : Nat} {t : TypeRef}
    (paren : c.current.kind = .punctuation .openParen)
    (run : typeRef (levels depth).typeRef c.advance = .ok (t, c₁))
    (close : c₁.current.kind = .punctuation .closeParen)
    (near : c₁.position - c.position < castWindow)
    (operand : startsCastOperand (c₁.peek 1).kind = true) : castAhead c = true := by
  have inside := isEnd_of_kind paren (by simp)
  have closeInside := isEnd_of_kind close (by simp)
  have step : c.advance.position = c.position + 1 := by rw [Cursor.advance_of_not_atEnd inside]
  obtain ⟨moved, drop⟩ := isSeen_typeRef (isSeen_levels depth) run
  have := moved.position
  obtain ⟨m, left⟩ : ∃ m, Leaves c.advance castWindow c₁ (m + 2) :=
    ⟨c.position + castWindow - 1 - c₁.position, moved.upto, by omega⟩
  obtain ⟨rest, head⟩ := kindsFrom_head c₁.advance m
  rw [Cursor.peek_one closeInside] at operand
  rw [castAhead_eq_looksLikeCast paren, looksLikeCast, length_kindsFrom, drop left (by omega),
    kindsFrom_succ _ closeInside, close, head]
  exact operand

/-- The look ahead for a cast and the grammar of types agree. What looks like a cast is one: its
type is read, at any depth with room for it, up to the closing parenthesis that was seen, and
the parser goes on with the operand. A type that is read up to a closing parenthesis within the
window, with the start of an operand behind it, looks like a cast. And nothing but the kinds of
the tokens up to the end of the window matters. -/
theorem castAhead_agrees (depth : Nat) (c : Cursor) :
    (c.current.kind = .punctuation .openParen →
      HasRoom (typeRef (levels depth).typeRef) c.advance →
      (castAhead c = true → ∃ t c₁, typeRef (levels depth).typeRef c.advance = .ok (t, c₁) ∧
        c₁.current.kind = .punctuation .closeParen ∧
        typeEnd? c = some (c₁.position - c.position) ∧
        unary (levels depth) c = castOperand (levels depth) c.current.span t c₁.advance) ∧
      (∀ t c₁, typeRef (levels depth).typeRef c.advance = .ok (t, c₁) →
        c₁.current.kind = .punctuation .closeParen → c₁.position - c.position < castWindow →
        startsCastOperand (c₁.peek 1).kind = true → castAhead c = true)) ∧
      ∀ d : Cursor, (∀ i ≤ castWindow, (d.peek i).kind = (c.peek i).kind) →
        castAhead d = castAhead c := by
  refine ⟨fun paren room => ⟨fun cast => ?_, fun t c₁ run close near operand => ?_⟩, fun d same => ?_⟩
  · obtain ⟨depth', t, c₁, run, close, found⟩ := reads_of_castAhead cast
    have run := typeRef_of_hasRoom run room
    exact ⟨t, c₁, run, close, found, unary_of_castAhead cast run close⟩
  · exact castAhead_of_reads paren run close near operand
  · have current := same 0 (Nat.zero_le _)
    rw [d.peek_zero, c.peek_zero] at current
    have window : castTokens d = castTokens c := by
      refine List.map_congr_left fun i mem => same (i + 1) ?_
      exact List.mem_range.mp mem
    show (d.current.kind == _ && looksLikeCast (castTokens d)) = _
    rw [current, window]
    rfl

/-- A cast to a type with an argument. -/
theorem castAhead_agrees_argument :
    ∃ tokens, lex "(A<B>) c" = .ok tokens ∧ castAhead (Cursor.ofTokens tokens) = true ∧
      ∃ t c₁, typeRef (levels 2).typeRef (Cursor.ofTokens tokens).advance = .ok (t, c₁) ∧
        typeEnd? (Cursor.ofTokens tokens) = some c₁.position := by
  have read : ((lex "(A<B>) c").toOption.bind fun tokens =>
      (typeRef (levels 2).typeRef (Cursor.ofTokens tokens).advance).toOption.map fun (_, c₁) =>
        ((Cursor.ofTokens tokens).current.kind, c₁.current.kind, c₁.position,
          startsCastOperand (c₁.peek 1).kind)) =
      some (.punctuation .openParen, .punctuation .closeParen, 5, true) := by decide +kernel
  cases lexed : lex "(A<B>) c" with
  | error e => simp [lexed, Except.toOption] at read
  | ok tokens =>
    cases run : typeRef (levels 2).typeRef (Cursor.ofTokens tokens).advance with
    | error e => simp [lexed, run, Except.toOption] at read
    | ok r =>
      obtain ⟨t, c₁⟩ := r
      simp only [lexed, run, Except.toOption, Option.bind_some, Option.map_some,
        Option.some.injEq, Prod.mk.injEq] at read
      obtain ⟨paren, close, place, operand⟩ := read
      have room : HasRoom (typeRef (levels 2).typeRef) (Cursor.ofTokens tokens).advance := by
        intro e stopped
        rw [run] at stopped
        cases stopped
      obtain ⟨commits, looks⟩ := (castAhead_agrees 2 (Cursor.ofTokens tokens)).1 paren room
      have near : c₁.position - (Cursor.ofTokens tokens).position < castWindow := by
        rw [place]
        exact Nat.lt_of_le_of_lt (Nat.sub_le _ _) (by decide)
      have cast := looks t c₁ run close near operand
      obtain ⟨t', c₂, run', _, found, _⟩ := commits cast
      exact ⟨tokens, rfl, cast, t', c₂, run', found⟩

end Grammar

end Apex
