import Apex.Proofs.Writing.Legibility

/-!
# Signs in front of expressions

Whether an expression is said to begin with a sign is settled by the expression at its left end, and
so is the character with which its text begins. The two agree: so a prefix operator that is set
apart from a sign, and only from a sign, is read as the operator that it is.
-/

namespace Apex

open Node

/-! ## The first character of a text -/

/-- The text begins with a plus or a minus if it is said to be signed, and else with a character
that goes on with no operator. -/
def BeginsSigned (signed : Bool) (text : List Char) : Prop :=
  ∃ c cs, text = c :: cs ∧ if signed then c = '+' ∨ c = '-' else markJoins c = false

namespace BeginsSigned

variable {signed : Bool} {text behind : List Char}

theorem append (h : BeginsSigned signed text) (behind : List Char) :
    BeginsSigned signed (text ++ behind) := by
  obtain ⟨c, cs, rfl, first⟩ := h
  exact ⟨c, cs ++ behind, rfl, first⟩

theorem plain {c : Char} (other : markJoins c = false) (cs : List Char) :
    BeginsSigned false (c :: cs) := ⟨c, cs, rfl, other⟩

theorem word {written : String} (word : IsWord written) : BeginsSigned false written.toList := by
  obtain ⟨c, cs, spelled, letter, -⟩ := word
  rw [spelled]
  exact .plain (markJoins_of_isWordStart letter) cs

theorem digit {written : String} (h : ∃ c cs, written.toList = c :: cs ∧ c.isDigit = true) :
    BeginsSigned false written.toList := by
  obtain ⟨c, cs, spelled, digit⟩ := h
  rw [spelled]
  exact .plain (markJoins_of_isDigit digit) cs

theorem iff_head (h : BeginsSigned signed text) :
    signed = true ↔ text.head? = some '+' ∨ text.head? = some '-' := by
  obtain ⟨c, cs, rfl, first⟩ := h
  cases signed with
  | true => simpa using first
  | false =>
    have plus : c ≠ '+' := by
      rintro rfl
      exact absurd first (by decide)
    have minus : c ≠ '-' := by
      rintro rfl
      exact absurd first (by decide)
    simp [plus, minus]

/-- No operator goes on with a text that is not signed. -/
theorem stops (h : BeginsSigned false text) (behind : List Char) :
    Stops markJoins (text ++ behind) := by
  obtain ⟨c, cs, rfl, first⟩ := h
  exact .cons first _

end BeginsSigned

/-! ## Literals -/

theorem head_toString_negative {n : Int} (negative : n < 0) :
    ∃ cs, (toString n).toList = '-' :: cs := by
  obtain ⟨k, rfl⟩ := Int.eq_negSucc_of_lt_zero negative
  have written : toString (Int.negSucc k) = "-" ++ (k + 1).repr := rfl
  rw [written, String.toList_append]
  exact ⟨_, rfl⟩

/-- A whole number begins with a sign exactly if it is negative. -/
theorem beginsSigned_int (value : Int64) (mark : String) :
    BeginsSigned (value.toInt < 0) (toString value.toInt ++ mark).toList := by
  by_cases negative : value.toInt < 0
  · obtain ⟨cs, written⟩ := head_toString_negative negative
    rw [decide_eq_true negative, String.toList_append, written]
    exact ⟨'-', _, rfl, .inr rfl⟩
  · rw [decide_eq_false negative]
    exact .digit (exists_digit (Int.not_lt.mp negative) mark)

/-- A negative number has its sign in front, a zero and an infinity too. -/
theorem Binary64.head_literalText_negative {v : Binary64} (negative : v.isNegative = true)
    (number : v.isNaN = false) : ∃ cs, v.literalText.toList = '-' :: cs := by
  have body : ∃ cs, v.text.toList = '-' :: cs := by
    unfold text
    rw [number, negative, if_neg Bool.false_ne_true, if_pos rfl, String.toList_append]
    exact ⟨_, rfl⟩
  obtain ⟨cs, body⟩ := body
  unfold literalText
  rw [negative, if_pos rfl]
  dsimp only
  split
  · rw [String.toList_append, String.toList_append]
    exact ⟨_, rfl⟩
  · split
    · exact ⟨cs, body⟩
    · rw [String.toList_append, body]
      exact ⟨_, rfl⟩

/-- A decimal begins with a sign exactly if it is negative. -/
theorem beginsSigned_decimal {v : Binary64} (number : v.isNaN = false) :
    BeginsSigned v.isNegative v.literalText.toList := by
  cases sign : v.isNegative with
  | true =>
    obtain ⟨cs, written⟩ := Binary64.head_literalText_negative sign number
    rw [written]
    exact ⟨'-', cs, rfl, .inr rfl⟩
  | false => exact .digit (Binary64.exists_digit sign number)

theorem Literal.beginsSigned {v : Literal} {span : Span}
    (legible : (leaf (.literal v) span).IsLegible) :
    BeginsSigned (Expr.literal span v).startsWithSign v.text.toList := by
  have number := isLegible_leaf.mp legible
  cases v with
  | integer value =>
    have written := beginsSigned_int value ""
    rw [String.append_empty] at written
    exact written
  | long value => exact beginsSigned_int value "L"
  | decimal value => exact beginsSigned_decimal number
  | string value =>
    rw [text, quote, String.toList_ofList]
    exact .plain (by decide) _
  | boolean value => cases value <;> exact .plain (by decide) _
  | null => exact .plain (by decide) _
  | soql query | sosl query =>
    rw [text, String.toList_append, String.toList_append]
    exact .plain (c := '[') (by decide) _

/-! ## Expressions -/

/-- What an expression begins with is settled by what stands at its left end. -/
theorem Expr.beginsSigned : (e : Expr) → e.node.IsLegible →
    BeginsSigned e.startsWithSign e.written
  | .literal _ v, legible => by
    rw [written_eq]
    exact (Literal.beginsSigned legible).append _
  | .name _ text, legible => by
    have word : IsWord text := isLegible_leaf.mp legible
    rw [written_eq]
    exact (BeginsSigned.word word).append _
  | .this _, _ | .super _, _ | .paren .., _ | .cast .., _ | .newObject .., _ | .newArray .., _
  | .newArrayOf .., _ | .newCollection .., _ | .newMap .., _ => by
    rw [written_eq]
    exact .plain (by decide) _
  | .call _ callee args, legible => by
    have name := (areLegible_cons.mp (isLegible_mk.mp legible).2).1
    have word : IsWord callee.value := isLegible_leaf.mp name
    rw [written_eq]
    exact (BeginsSigned.word word).append _
  | .unary _ op operand, _ => by
    rw [written_eq]
    cases op with
    | plus => exact ⟨'+', _, rfl, .inl rfl⟩
    | minus => exact ⟨'-', _, rfl, .inr rfl⟩
    | complement | not => exact .plain (by decide) _
  | .stepBefore _ op operand, _ => by
    rw [written_eq]
    cases op with
    | increment => exact ⟨'+', _, rfl, .inl rfl⟩
    | decrement => exact ⟨'-', _, rfl, .inr rfl⟩
  -- These begin with one of their parts, and whatever is written behind it does not matter.
  | .stepAfter _ _ left, legible | .member _ left _, legible | .methodCall _ left _ _, legible
  | .index _ left _, legible | .binary _ left _ _, legible | .instanceOf _ left _, legible
  | .ternary _ left _ _, legible | .assignment _ left _ _, legible => by
    have left := left.beginsSigned (areLegible_cons.mp (isLegible_mk.mp legible).2).1
    rw [written_eq]
    exact left.append _

/-! ## Prefix operators -/

/-- The expression is a prefix operator before an operand. -/
inductive Expr.IsPrefixed : Operator → Expr → Expr → Prop where
  | unary (span : Span) (op : UnaryOp) (operand : Expr) :
    IsPrefixed op.operator operand (.unary span op operand)
  | step (span : Span) (op : StepOp) (operand : Expr) :
    IsPrefixed op.operator operand (.stepBefore span op operand)

/-- What stands between a prefix operator and its operand. -/
def Expr.signGap (e : Expr) : List Char := if e.startsWithSign then [' '] else []

/-- What has been read, with the token of an operator behind it. -/
def Lexing.pushOperator (l : Lexing) (o : Operator) : Lexing :=
  let stop := l.offset + byteSize o.spelling.toList
  ⟨.plain (.operator o) ⟨l.offset, stop⟩ :: l.tokens, l.errors, stop⟩

theorem Piece.flatMap_operand (e : Expr) :
    (operand e).flatMap written = e.signGap ++ e.written := by
  unfold operand Expr.signGap
  split <;> simp [written]

/-- An operator is a token if it is read as one from its first character on. -/
theorem lexFrom_operator {o : Operator} {c : Char} {cs behind : List Char} {l : Lexing}
    (spelled : o.spelling.toList = c :: cs)
    (read : Lexeme.read l.offset c (cs ++ behind) = ⟨cs.length, .token (.operator o)⟩) :
    lexFrom l 0 (o.spelling.toList ++ behind) = lexFrom (l.pushOperator o) 0 behind := by
  unfold Lexing.pushOperator
  rw [spelled, List.cons_append, lexFrom_cons, read, List.take_left, List.drop_left]
  rfl

namespace Expr

variable {o : Operator} {e whole : Expr}

/-- The operator comes first, and the operand behind it. -/
theorem IsPrefixed.written (h : IsPrefixed o e whole) :
    whole.written = o.spelling.toList ++ (e.signGap ++ e.written) := by
  rw [written_eq, ← Piece.flatMap_operand]
  cases h <;> rfl

/-- A prefix operator is read as itself before whatever does not go on with an operator. -/
theorem IsPrefixed.lexFrom (h : IsPrefixed o e whole) {behind : List Char}
    (stops : Stops markJoins behind) (l : Lexing) :
    lexFrom l 0 (o.spelling.toList ++ behind) = lexFrom (l.pushOperator o) 0 behind := by
  cases h with
  | unary span op =>
    cases op <;>
      exact lexFrom_operator rfl (read_sign (fun _ => rfl) (by decide) rfl stops rfl l.offset)
  -- A doubled sign is the longest there is, so it stops by itself.
  | step span op => cases op <;> exact lexFrom_operator rfl rfl

/-- Between the operator and a legible operand nothing goes on with the operator. -/
theorem stops_operand (legible : e.node.IsLegible) (behind : List Char) :
    Stops markJoins (e.signGap ++ e.written ++ behind) := by
  have begins := e.beginsSigned legible
  unfold signGap
  cases signed : e.startsWithSign with
  | true => exact .cons (by decide) _
  | false =>
    rw [signed] at begins
    exact begins.stops behind

/-- The gap before an operand is passed over. -/
theorem lexFrom_signGap (e : Expr) (l : Lexing) (after : List Char) :
    Apex.lexFrom l 0 (e.signGap ++ after) = Apex.lexFrom (l.pass e.signGap) 0 after := by
  unfold signGap
  split
  · exact lexFrom_pass [] rfl
  · rfl

/-- An expression is said to start with a sign exactly if its text does. So before an expression of
an accepted source, and before any other whose names are words and whose decimals are numbers, a
prefix operator is a token of its own, whatever has been read before it and whatever comes behind:
it is among the tokens in the end, and the operand is read behind it as it is written. -/
theorem startsWithSign_iff
    (given : (∃ source unit path, parseSource source = .ok unit ∧
      unit.node.descend? path = some e.node) ∨ e.node.IsLegible) :
    (e.startsWithSign = true ↔ e.written.head? = some '+' ∨ e.written.head? = some '-') ∧
      ∀ {o : Operator} {whole : Expr}, IsPrefixed o e whole → ∀ (l : Lexing) (behind : List Char),
        Apex.lexFrom l 0 (whole.written ++ behind) =
            Apex.lexFrom ((l.pushOperator o).pass e.signGap) 0 (e.written ++ behind) ∧
          (l.pushOperator o).tokens <:+ (Apex.lexFrom l 0 (whole.written ++ behind)).tokens := by
  have legible : e.node.IsLegible := by
    rcases given with ⟨source, unit, path, accepted, reached⟩ | legible
    · exact (isLegible_of_parseSource accepted).descend reached
    · exact legible
  refine ⟨(e.beginsSigned legible).iff_head, fun {o whole} prefixed l behind => ?_⟩
  have read : Apex.lexFrom l 0 (whole.written ++ behind) =
      Apex.lexFrom ((l.pushOperator o).pass e.signGap) 0 (e.written ++ behind) := by
    rw [prefixed.written, List.append_assoc, prefixed.lexFrom (stops_operand legible behind),
      List.append_assoc, lexFrom_signGap]
  refine ⟨read, ?_⟩
  rw [read, lexFrom_eq]
  exact List.suffix_append _ _

/-- A minus before a negated variable. The blank keeps the two signs apart. -/
theorem startsWithSign_iff_minus :
    let negated := unary ⟨2, 4⟩ .minus (.name ⟨3, 4⟩ "x")
    negated.node.IsLegible ∧
      (negated.written.head? = some '+' ∨ negated.written.head? = some '-') ∧
      ∀ l behind, Apex.lexFrom l 0 ((unary ⟨0, 4⟩ .minus negated).written ++ behind) =
        Apex.lexFrom ((l.pushOperator .minus).pass [' ']) 0 (negated.written ++ behind) := by
  intro negated
  have word : IsWord "x" := ⟨'x', [], rfl, by decide, rfl⟩
  have legible : negated.node.IsLegible :=
    isLegible_mk.mpr ⟨trivial, areLegible_cons.mpr ⟨isLegible_leaf.mpr word, areLegible_nil⟩⟩
  have signs := startsWithSign_iff (e := negated) (.inr legible)
  exact ⟨legible, signs.1.mp rfl, fun l behind => (signs.2 (.unary ⟨0, 4⟩ .minus _) l behind).1⟩

end Expr

end Apex
