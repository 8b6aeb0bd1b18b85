import Apex.Layout.Declaration
import Apex.Proofs.Tiling.Lines
import Apex.Proofs.Writing.Pieces
import Apex.Proofs.Writing.Texts

/-!
# What is written is balanced

The texts of an accepted tree close what they open: each can stand in front of a settled text. For
this nothing has to be known of the words in them but that they are words, and of the queries but
that they are queries.
-/

namespace Apex

open Form Grammar

/-! ## Legible forms -/

/-- The words in a form are words of the language, its decimals are numbers, and its queries are
queries. -/
def Form.Legible : Form → Prop
  | .kind (.name text) | .word text => IsWord text
  | .kind (.decimal value) => value.isNaN = false
  | .kind (.soql query) => QueryLanguage.soql.Holds query
  | .kind (.sosl query) => QueryLanguage.sosl.Holds query
  | .kind _ | .spelled _ | .operator _ | .zero _ => True

theorem Form.Reads.legible {form : Form} {c c' : Cursor} (h : form.Reads .source c c')
    (sound : c.Sound) : form.Legible := by
  have genuine := sound.current
  unfold Token.Genuine at genuine
  cases form with
  | kind k =>
    obtain ⟨same, -, -⟩ := h
    cases k with
    | name text =>
      cases found : c.current.kind <;> rw [found] at genuine same <;> cases same
      exact genuine.1
    | decimal value =>
      cases found : c.current.kind <;> rw [found] at genuine same <;> cases same
      exact genuine.2
    | soql q =>
      cases found : c.current.kind <;> rw [found] at genuine same <;>
        simp only [TokenKind.blur, reduceCtorEq, TokenKind.soql.injEq] at same
      exact genuine.of_blur_eq same
    | sosl q =>
      cases found : c.current.kind <;> rw [found] at genuine same <;>
        simp only [TokenKind.blur, reduceCtorEq, TokenKind.sosl.injEq] at same
      exact genuine.of_blur_eq same
    | _ => trivial
  | word text =>
    obtain ⟨written, -, -⟩ := h
    cases found : c.current.kind with
    | name w =>
      simp only [Token.writtenWord?, found, TokenKind.word?, Option.some.injEq] at written
      subst written
      rw [found] at genuine
      exact genuine.1
    | keyword k =>
      rw [found] at genuine
      obtain ⟨w, again, word, -⟩ := genuine
      rw [written] at again
      cases again
      exact word
    | _ => simp [Token.writtenWord?, found, TokenKind.word?] at written
  | spelled | operator | zero => trivial

def Form.AllLegible (forms : List Form) : Prop := ∀ form ∈ forms, form.Legible

/-- What stands in a source is legible. -/
theorem legible_of_stands {forms : List Form} {c c' : Cursor} (h : Stands .source forms c c')
    (sound : c.Sound) : AllLegible forms := by
  induction forms generalizing c with
  | nil => exact List.forall_mem_nil _
  | cons form forms ih =>
    obtain ⟨c₁, first, rest⟩ := h
    exact List.forall_mem_cons.mpr ⟨first.legible sound, ih rest (first.before.upto.sound sound)⟩

namespace Form

variable {form : Form} {forms others : List Form} {rows : List (List Form)}

@[simp] theorem allLegible_nil : AllLegible [] := List.forall_mem_nil _

@[simp] theorem allLegible_cons :
    AllLegible (form :: forms) ↔ form.Legible ∧ AllLegible forms := List.forall_mem_cons

@[simp] theorem allLegible_append :
    AllLegible (forms ++ others) ↔ AllLegible forms ∧ AllLegible others := List.forall_mem_append

@[simp] theorem allLegible_flatten :
    AllLegible rows.flatten ↔ ∀ row ∈ rows, AllLegible row := by
  simp only [AllLegible, List.forall_mem_flatten]

@[simp] theorem allLegible_flatMap {α : Type} {f : α → List Form} {xs : List α} :
    AllLegible (xs.flatMap f) ↔ ∀ x ∈ xs, AllLegible (f x) := by
  simp only [AllLegible, List.forall_mem_flatMap]

@[simp] theorem legible_mark (p : Punctuation) : (mark p).Legible := trivial

@[simp] theorem allLegible_commas : AllLegible (commas rows) ↔ ∀ row ∈ rows, AllLegible row := by
  cases rows <;> simp [commas]

@[simp] theorem allLegible_angled : AllLegible (angled rows) ↔ ∀ row ∈ rows, AllLegible row := by
  have sign (o : Operator) : (sign o).Legible := trivial
  cases rows with
  | nil => simp [angled]
  | cons row rows =>
    rw [← allLegible_commas]
    simp [angled, sign]

@[simp] theorem allLegible_parens : AllLegible (parens forms) ↔ AllLegible forms := by
  simp [parens]

@[simp] theorem allLegible_braces : AllLegible (braces forms) ↔ AllLegible forms := by
  simp [braces]

end Form

/-! ## Balanced texts -/

/-- The text can stand in front of any settled text. -/
def Balanced (text : List Char) : Prop :=
  ∀ ⦃depth : Nat⦄ ⦃rest : List Char⦄, Settled depth rest → Settled depth (text ++ rest)

namespace Balanced

variable {text text' : List Char}

theorem settled (h : Balanced text) : Settled 0 text := by
  have alone := h .nil
  rwa [List.append_nil] at alone

theorem nil : Balanced [] := fun _ _ rest => rest

theorem append (h : Balanced text) (h' : Balanced text') : Balanced (text ++ text') := by
  intro depth rest settled
  rw [List.append_assoc]
  exact h (h' settled)

theorem plains (plain : ∀ c ∈ text, isPlain c = true) : Balanced text := by
  induction text with
  | nil => exact nil
  | cons c text ih =>
    rw [List.forall_mem_cons] at plain
    exact fun _ _ rest => .plain plain.1 (ih plain.2 rest)

/-- A text that is the same for every tree. -/
theorem fixed (plain : text.all isPlain = true) : Balanced text :=
  .plains (List.all_eq_true.mp plain)

theorem unit {c : Char} (unit : IsUnit c text) : Balanced (c :: text) :=
  fun _ _ rest => .unit unit rest

/-- Brackets around a balanced text. -/
theorem brackets (h : Balanced text) : Balanced ('[' :: text ++ [']']) := by
  intro depth rest settled
  have inner := h (.closes settled)
  rw [← List.singleton_append, ← List.append_assoc] at inner
  exact .opens inner

theorem flatMap {α : Type} {f : α → List Char} {xs : List α} (h : ∀ x ∈ xs, Balanced (f x)) :
    Balanced (xs.flatMap f) := by
  induction xs with
  | nil => exact nil
  | cons x xs ih =>
    rw [List.forall_mem_cons] at h
    rw [List.flatMap_cons]
    exact h.1.append (ih h.2)

theorem intercalate {separator : List Char} {rows : List (List Char)}
    (plain : separator.all isPlain = true) (h : ∀ row ∈ rows, Balanced row) :
    Balanced (separator.intercalate rows) := by
  cases rows with
  | nil => exact nil
  | cons row rows =>
    rw [List.forall_mem_cons] at h
    rw [intercalate_cons]
    exact h.1.append (.flatMap fun x mem => (fixed plain).append (h.2 x mem))

theorem word {text : String} (word : IsWord text) : Balanced text.toList := by
  obtain ⟨c, cs, spelled, letter, parts⟩ := word
  rw [spelled]
  refine .plains (List.forall_mem_cons.mpr ⟨?_, fun d mem => ?_⟩)
  · exact isPlain_of letter (by decide)
  · exact isPlain_of (List.all_eq_true.mp parts d mem) (by decide)

end Balanced

/-! ## Numbers -/

/-- Whether a character can stand in a written number. What is infinite or no number is a word. -/
def isFigure (c : Char) : Bool := c.isDigit || c ∈ ['-', '.', 'i', 'n', 'f', 'N', 'a']

/-- All characters can stand in a written number. -/
def AllFigures (text : List Char) : Prop := ∀ c ∈ text, isFigure c = true

namespace AllFigures

variable {text text' : List Char}

theorem digits (h : ∀ c ∈ text, c.isDigit = true) : AllFigures text := by
  intro c mem
  rw [isFigure, h c mem, Bool.true_or]

theorem toDigits (n : Nat) : AllFigures (Nat.toDigits 10 n) :=
  .digits fun _ mem => Nat.isDigit_of_mem_toDigits (by decide) (by decide) mem

theorem zeros (n : Nat) : AllFigures (List.replicate n '0') := by
  intro c mem
  rw [List.eq_of_mem_replicate mem]
  rfl

theorem append (h : AllFigures text) (h' : AllFigures text') : AllFigures (text ++ text') :=
  List.forall_mem_append.mpr ⟨h, h'⟩

theorem fixed (h : text.all isFigure = true) : AllFigures text := List.all_eq_true.mp h

theorem balanced (h : AllFigures text) : Balanced text :=
  .plains fun c mem => isPlain_of (p := isFigure) (h c mem) (by decide)

end AllFigures

theorem allFigures_toString (value : Int) : AllFigures (toString value).toList := by
  cases value with
  | ofNat n =>
    have written : (toString (Int.ofNat n)).toList = Nat.toDigits 10 n := Nat.toList_repr
    rw [written]
    exact .toDigits n
  | negSucc n =>
    have written : toString (Int.negSucc n) = "-" ++ (n + 1).repr := rfl
    rw [written, String.toList_append, Nat.toList_repr]
    exact .append (.fixed (by decide)) (.toDigits (n + 1))

theorem Decimal.allFigures_text (d : Decimal) : AllFigures d.text.toList := by
  unfold text
  dsimp only
  split
  · rw [String.toList_ofList]
    exact .append (.toDigits _) (.zeros _)
  · next n _ =>
    have padded := (AllFigures.zeros (n + 2 - (Nat.toDigits 10 d.digits).length)).append
      (.toDigits d.digits)
    have point : AllFigures ['.'] := .fixed (by decide)
    rw [String.toList_ofList]
    exact .append (fun c mem => padded c (List.mem_of_mem_take mem))
      (point.append fun c mem => padded c (List.mem_of_mem_drop mem))

theorem Binary64.allFigures_text (v : Binary64) : AllFigures v.text.toList := by
  unfold text
  dsimp only
  have body : AllFigures (if v.isInfinite = true then "inf"
      else if v.magnitude = 0 then "0" else v.shortest.text).toList := by
    split
    · exact .fixed (by decide)
    · split
      · exact .fixed (by decide)
      · exact v.shortest.allFigures_text
  split
  · exact .fixed (by decide)
  · split
    · rw [String.toList_append]
      exact .append (.fixed (by decide)) body
    · exact body

theorem Binary64.allFigures_literalText (v : Binary64) : AllFigures v.literalText.toList := by
  unfold literalText
  split
  · rw [String.toList_append, String.toList_append, String.toList_ofList]
    have sign : AllFigures (if v.isNegative = true then "-1" else "1").toList := by
      split <;> exact .fixed (by decide)
    exact (sign.append (.zeros _)).append (.fixed (by decide))
  · dsimp only
    split
    · exact v.allFigures_text
    · rw [String.toList_append]
      exact v.allFigures_text.append (.fixed (by decide))

/-! ## Literals -/

theorem balanced_quote (value : String) : Balanced (quote value).toList := by
  have written : (quote value).toList = '\'' :: (value.toList.flatMap escapeChar ++ ['\'']) := by
    rw [quote, String.toList_ofList]
    rfl
  rw [written]
  exact .unit (isUnit_quoted value.toList)

theorem QueryLanguage.Holds.balanced {language : QueryLanguage} {query : Query}
    (h : language.Holds query) : Balanced ("[" ++ query.text ++ "]").toList := by
  rw [toList_brackets]
  exact .unit (isUnit_query h.1.1 h.1.2)

theorem Literal.balanced {v : Literal} (legible : AllLegible v.forms) : Balanced v.text.toList := by
  cases v with
  | integer value => exact (allFigures_toString value.toInt).balanced
  | long value =>
    rw [text, String.toList_append]
    exact (allFigures_toString value.toInt).balanced.append (.fixed (by decide))
  | decimal value => exact value.allFigures_literalText.balanced
  | string value => exact balanced_quote value
  | boolean value => cases value <;> exact .fixed (by decide)
  | null => exact .fixed (by decide)
  | soql query =>
    have holds : QueryLanguage.soql.Holds query := legible _ (List.mem_singleton_self _)
    exact holds.balanced
  | sosl query =>
    have holds : QueryLanguage.sosl.Holds query := legible _ (List.mem_singleton_self _)
    exact holds.balanced

theorem Literal.balanced_signed {v : Literal} (legible : AllLegible v.signedForms) :
    Balanced v.text.toList := by
  cases v with
  | integer value => exact (allFigures_toString value.toInt).balanced
  | long value =>
    rw [text, String.toList_append]
    exact (allFigures_toString value.toInt).balanced.append (.fixed (by decide))
  | decimal value => exact value.allFigures_literalText.balanced
  | string | boolean | null | soql | sosl => exact Literal.balanced legible

/-! ## Types and names -/

theorem balanced_dotted {is : List Ident} (words : ∀ i ∈ is, IsWord i.value) :
    Balanced (['.'].intercalate (is.map (·.value.toList))) := by
  refine .intercalate (by decide) ?_
  rw [List.forall_mem_map]
  exact fun i mem => .word (words i mem)

theorem legible_dotted {form : Ident → Form} {is : List Ident}
    (legible : AllLegible (dotted form is)) (words : ∀ i, (form i).Legible → IsWord i.value) :
    ∀ i ∈ is, IsWord i.value := by
  cases is with
  | nil => exact List.forall_mem_nil _
  | cons i is =>
    simp only [dotted, allLegible_cons, allLegible_flatMap] at legible
    rw [List.forall_mem_cons]
    exact ⟨legible.1, fun j mem => words j (legible.2 j mem).2.1⟩

theorem QualifiedName.balanced {q : QualifiedName} (legible : AllLegible q.forms) :
    Balanced q.text.toList := by
  rw [q.toList_text]
  exact balanced_dotted (legible_dotted legible fun _ => id)

namespace TypeRef

mutual

theorem balanced : (t : TypeRef) → AllLegible t.forms → Balanced t.text.toList
  | ⟨span, segments, arguments, dimensions⟩, legible => by
    simp only [forms, formsOf_eq_map, allLegible_append, allLegible_angled,
      List.forall_mem_map] at legible
    rw [toList_text]
    refine .append (.append (balanced_dotted (legible_dotted legible.1.1 fun _ => id)) ?_) ?_
    · split
      · exact .nil
      · have inner := balancedAll arguments legible.1.2
        have opening : Balanced ['<'] := .fixed (by decide)
        have closing : Balanced ['>'] := .fixed (by decide)
        refine (opening.append (.intercalate (by decide) ?_)).append closing
        rw [List.forall_mem_map]
        exact inner
    · rw [String.toList_join]
      refine .flatMap fun pair mem => ?_
      rw [List.eq_of_mem_replicate mem]
      exact Balanced.nil.brackets

theorem balancedAll : (ts : List TypeRef) → (∀ t ∈ ts, AllLegible t.forms) →
    ∀ t ∈ ts, Balanced t.text.toList
  | [], _ => List.forall_mem_nil _
  | t :: ts, legible => by
    rw [List.forall_mem_cons] at legible ⊢
    exact ⟨t.balanced legible.1, balancedAll ts legible.2⟩

end

/-- Types behind a word. -/
theorem balanced_listAfter (before : String) {k : Keyword} {types : List TypeRef}
    (plain : before.toList.all isPlain = true) (legible : AllLegible (formsBehind k types)) :
    Balanced (listAfter before types).toList := by
  unfold listAfter
  unfold formsBehind at legible
  split
  · exact .nil
  · next some =>
    rw [if_neg some] at legible
    simp only [allLegible_cons, allLegible_commas, List.forall_mem_map] at legible
    rw [listText, String.toList_append, String.toList_intercalate]
    refine (Balanced.fixed plain).append (.intercalate (by decide) ?_)
    rw [texts_eq_map, List.map_map, List.forall_mem_map]
    exact balancedAll types legible.2

end TypeRef

/-! ## Modifiers and annotations -/

theorem Modifier.balanced (m : Modifier) : Balanced m.text.toList := by
  refine .fixed ?_
  cases m <;> decide

mutual

theorem AnnotationMark.balanced : (a : AnnotationMark) → AllLegible a.forms → Balanced a.text.toList
  | .mk _ name elements parenthesized, legible => by
    simp only [AnnotationMark.forms, AnnotationElement.formsOf_eq_map, allLegible_cons] at legible
    obtain ⟨-, word, arguments⟩ := legible
    have named : Balanced ("@" ++ name.value).toList := by
      rw [String.toList_append]
      exact .append (.fixed (by decide)) (.word word)
    cases parenthesized with
    | false => exact named
    | true =>
      simp only [if_true, allLegible_parens, allLegible_flatten, List.forall_mem_map] at arguments
      have inner := AnnotationElement.balancedAll elements arguments
      rw [AnnotationMark.text, AnnotationElement.texts_eq_map, String.toList_append,
        String.toList_append, String.toList_append, String.toList_intercalate, List.map_map]
      refine .append (.append (named.append (.fixed (by decide))) (.intercalate (by decide) ?_))
        (.fixed (by decide))
      rw [List.forall_mem_map]
      exact inner

theorem AnnotationElement.balanced : (e : AnnotationElement) → AllLegible e.forms →
    Balanced e.text.toList
  | .mk _ key value comma, legible => by
    simp only [AnnotationElement.forms, allLegible_append] at legible
    have value := value.balanced legible.1.2
    have ending : Balanced (if comma then "," else "").toList := by
      cases comma <;> exact .fixed (by decide)
    cases key with
    | none =>
      simp only [AnnotationElement.text, String.toList_append]
      exact .append (.append (.fixed (by decide)) value) ending
    | some key =>
      have word : IsWord key.value := (allLegible_cons.mp legible.1.1).1
      simp only [AnnotationElement.text, String.toList_append]
      exact .append (.append (.append (.word word) (.fixed (by decide))) value) ending

theorem AnnotationElement.balancedAll : (es : List AnnotationElement) →
    (∀ e ∈ es, AllLegible e.forms) → ∀ e ∈ es, Balanced e.text.toList
  | [], _ => List.forall_mem_nil _
  | e :: es, legible => by
    rw [List.forall_mem_cons] at legible ⊢
    exact ⟨e.balanced legible.1, AnnotationElement.balancedAll es legible.2⟩

theorem AnnotationValue.balanced : (v : AnnotationValue) → AllLegible v.forms →
    Balanced v.text.toList
  | .literal _ value, legible => Literal.balanced_signed legible
  | .array _ values, legible => by
    simp only [AnnotationValue.forms, AnnotationValue.formsOf_eq_map, allLegible_braces,
      allLegible_commas, List.forall_mem_map] at legible
    have inner := AnnotationValue.balancedAll values legible
    rw [AnnotationValue.text, AnnotationValue.texts_eq_map, String.toList_append,
      String.toList_append, String.toList_intercalate, List.map_map]
    refine .append (.append (.fixed (by decide)) (.intercalate (by decide) ?_)) (.fixed (by decide))
    rw [List.forall_mem_map]
    exact inner
  | .nested inner, legible => inner.balanced legible

theorem AnnotationValue.balancedAll : (vs : List AnnotationValue) →
    (∀ v ∈ vs, AllLegible v.forms) → ∀ v ∈ vs, Balanced v.text.toList
  | [], _ => List.forall_mem_nil _
  | v :: vs, legible => by
    rw [List.forall_mem_cons] at legible ⊢
    exact ⟨v.balanced legible.1, AnnotationValue.balancedAll vs legible.2⟩

end

/-! ## Expressions -/

/-- What an expression is written as. -/
def Expr.written (e : Expr) : List Char := e.texts.flatMap String.toList

/-- What a piece is written as. -/
def Piece.written : Piece → List Char
  | .text written => written.toList
  | .expr e => e.written

theorem Expr.written_eq (e : Expr) : e.written = e.pieces.flatMap Piece.written := by
  rw [written, texts_eq, List.flatMap_assoc]
  refine List.flatMap_congr fun p _ => ?_
  cases p with
  | text written => exact List.append_nil _
  | expr e => rfl

/-- What the pieces are written as is balanced. -/
def BalancedRow (ps : List Piece) : Prop := Balanced (ps.flatMap Piece.written)

namespace BalancedRow

variable {ps qs : List Piece} {t : String} {e : Expr} {es : List Expr}

theorem nil : BalancedRow [] := Balanced.nil

theorem append (h : BalancedRow ps) (h' : BalancedRow qs) : BalancedRow (ps ++ qs) := by
  unfold BalancedRow
  rw [List.flatMap_append]
  exact Balanced.append h h'

theorem write (h : Balanced t.toList) (rest : BalancedRow ps) : BalancedRow (.text t :: ps) :=
  Balanced.append h rest

/-- A text that is the same for every tree. -/
theorem fixed (plain : t.toList.all isPlain = true) (rest : BalancedRow ps) :
    BalancedRow (.text t :: ps) :=
  .write (.fixed plain) rest

theorem expr (h : Balanced e.written) (rest : BalancedRow ps) : BalancedRow (.expr e :: ps) := by
  have both := h.append rest
  exact both

/-- An expression in brackets. -/
theorem bracketed (h : Balanced e.written) (rest : BalancedRow ps) :
    BalancedRow (.text "[" :: .expr e :: .text "]" :: ps) := by
  have inner := h.brackets.append rest
  rw [List.append_assoc, List.cons_append, ← List.append_assoc, List.append_assoc e.written]
    at inner
  exact inner

/-- An operator between its blanks. A blank keeps a slash from opening a comment. -/
theorem operator (o : Operator) (rest : BalancedRow ps) :
    BalancedRow (.text " " :: .text o.spelling :: .text " " :: ps) := by
  refine .fixed (by decide) ?_
  by_cases slash : o = .slash
  · subst slash
    exact fun _ _ settled => .slash (.inl rfl) (.plain (by decide) (rest settled))
  · by_cases slashAssign : o = .slashAssign
    · subst slashAssign
      exact fun _ _ settled =>
        .slash (.inr rfl) (.plain (by decide) (.plain (by decide) (rest settled)))
    · refine .fixed ?_ (.fixed (by decide) rest)
      cases o <;> first | decide | exact absurd rfl slash | exact absurd rfl slashAssign

theorem flatMap {α : Type} {f : α → List Piece} {xs : List α} (h : ∀ x ∈ xs, BalancedRow (f x)) :
    BalancedRow (xs.flatMap f) := by
  unfold BalancedRow
  rw [List.flatMap_assoc]
  exact .flatMap h

theorem list (h : ∀ e ∈ es, Balanced e.written) : BalancedRow (Piece.list es) := by
  cases es with
  | nil => exact .nil
  | cons e es =>
    rw [List.forall_mem_cons] at h
    exact .expr h.1 (.flatMap fun e mem => .fixed (by decide) (.expr (h.2 e mem) .nil))

theorem arguments (h : ∀ e ∈ es, Balanced e.written) : BalancedRow (Piece.arguments es) :=
  .append (.fixed (by decide) (.list h)) (.fixed (by decide) .nil)

theorem elements (h : ∀ e ∈ es, Balanced e.written) : BalancedRow (Piece.elements es) :=
  .append (.fixed (by decide) (.list h)) (.fixed (by decide) .nil)

theorem entry {keyAndValue : Expr × Expr}
    (h : Balanced keyAndValue.1.written ∧ Balanced keyAndValue.2.written) :
    BalancedRow (Piece.entry keyAndValue) :=
  .expr h.1 (.fixed (by decide) (.expr h.2 .nil))

theorem entries {entries : List (Expr × Expr)}
    (h : ∀ e ∈ entries, Balanced e.1.written ∧ Balanced e.2.written) :
    BalancedRow (Piece.entries entries) := by
  cases entries with
  | nil => exact .nil
  | cons e entries =>
    rw [List.forall_mem_cons] at h
    exact .append (.entry h.1) (.flatMap fun e mem => .fixed (by decide) (.entry (h.2 e mem)))

theorem operand (h : Balanced e.written) : BalancedRow (Piece.operand e) := by
  unfold Piece.operand
  split
  · exact .fixed (by decide) (.expr h .nil)
  · exact .expr h .nil

end BalancedRow

theorem isWord_of_legible_named {text : String} (legible : (named text).Legible) : IsWord text := by
  unfold named at legible
  split at legible <;> exact legible

theorem isWord_of_legible_wordKind {text : String} (legible : (Form.kind (wordKind text)).Legible) :
    IsWord text := by
  unfold wordKind at legible
  cases found : Keyword.reservedOfWord? text with
  | none =>
    rw [found] at legible
    exact legible
  | some k => exact isWord_of_ofWord? (Option.filter_eq_some_iff.mp found).1

mutual

/-- An expression is balanced. -/
theorem Expr.balanced (e : Expr) (legible : AllLegible e.forms) : Balanced e.written := by
  rw [written_eq]
  show BalancedRow e.pieces
  cases e with
  | literal _ value => exact .write (Literal.balanced legible) .nil
  | name _ text =>
    have word := isWord_of_legible_named (allLegible_cons.mp legible).1
    exact .write (.word word) .nil
  | this | super => exact .fixed (by decide) .nil
  | paren _ inner =>
    simp only [forms, allLegible_parens] at legible
    exact .fixed (by decide) (.expr (inner.balanced legible) (.fixed (by decide) .nil))
  | member _ object part =>
    simp only [forms, allLegible_append, allLegible_cons] at legible
    exact .expr (object.balanced legible.1) (.fixed (by decide) (.write (.word legible.2.2.1) .nil))
  | call _ callee args =>
    simp only [forms, allLegible_cons, allLegible_parens, allLegible_commas, formsOf_eq_map,
      List.forall_mem_map] at legible
    have word := isWord_of_legible_wordKind legible.1
    exact .write (.word word) (.arguments (Expr.balancedAll args legible.2))
  | methodCall _ receiver callee args =>
    simp only [forms, allLegible_append, allLegible_cons, allLegible_parens, allLegible_commas,
      formsOf_eq_map, List.forall_mem_map] at legible
    have args := BalancedRow.arguments (Expr.balancedAll args legible.2.2.2)
    have called := BalancedRow.write (.word legible.2.2.1) args
    exact .expr (receiver.balanced legible.1) (.fixed (by decide) called)
  | index _ object position =>
    simp only [forms, allLegible_append, allLegible_cons] at legible
    exact .expr (object.balanced legible.1.1) (.bracketed (position.balanced legible.1.2.2) .nil)
  | newObject _ type args =>
    simp only [forms, allLegible_append, allLegible_cons, allLegible_parens, allLegible_commas,
      formsOf_eq_map, List.forall_mem_map] at legible
    have args := BalancedRow.arguments (Expr.balancedAll args legible.2)
    exact .fixed (by decide) (.write (type.balanced legible.1.2) args)
  | newArray _ type size =>
    simp only [forms, allLegible_append, allLegible_cons] at legible
    have size := BalancedRow.bracketed (size.balanced legible.1.2.2) .nil
    exact .fixed (by decide) (.write (type.balanced legible.1.1.2) size)
  | newArrayOf _ type es =>
    simp only [forms, allLegible_append, allLegible_cons, allLegible_braces, allLegible_commas,
      formsOf_eq_map, List.forall_mem_map] at legible
    have elements := BalancedRow.elements (Expr.balancedAll es legible.2.2.2)
    have brackets : Balanced "[]".toList := Balanced.nil.brackets
    exact .fixed (by decide) (.write (type.balanced legible.1.2) (.write brackets elements))
  | newCollection _ type es =>
    simp only [forms, allLegible_append, allLegible_cons, allLegible_braces, allLegible_commas,
      formsOf_eq_map, List.forall_mem_map] at legible
    have elements := BalancedRow.elements (Expr.balancedAll es legible.2)
    exact .fixed (by decide) (.write (type.balanced legible.1.2) elements)
  | newMap _ type entries =>
    simp only [forms, allLegible_append, allLegible_cons, allLegible_braces, allLegible_commas,
      formsOfEntries_eq_map, List.forall_mem_map] at legible
    have inner := BalancedRow.entries (Expr.balancedEntries entries legible.2)
    have opening := inner.fixed (t := "\x7b") (by decide)
    exact .append (.fixed (by decide) (.write (type.balanced legible.1.2) opening))
      (.fixed (by decide) .nil)
  | cast _ type operand =>
    simp only [forms, allLegible_append, allLegible_parens] at legible
    have behind := BalancedRow.expr (operand.balanced legible.2) .nil
    exact .fixed (by decide) (.write (type.balanced legible.1) (.fixed (by decide) behind))
  | unary _ op operand =>
    simp only [forms, allLegible_cons] at legible
    exact .fixed (by cases op <;> decide) (.operand (operand.balanced legible.2))
  | stepBefore _ op operand =>
    simp only [forms, allLegible_cons] at legible
    exact .fixed (by cases op <;> decide) (.operand (operand.balanced legible.2))
  | stepAfter _ op operand =>
    simp only [forms, allLegible_append] at legible
    exact .expr (operand.balanced legible.1) (.fixed (by cases op <;> decide) .nil)
  | binary _ left op right =>
    simp only [forms, allLegible_append, allLegible_cons] at legible
    have behind := BalancedRow.expr (right.balanced legible.2.2) .nil
    exact .expr (left.balanced legible.1) (.operator op.operator behind)
  | instanceOf _ operand type =>
    simp only [forms, allLegible_append, allLegible_cons] at legible
    have behind := BalancedRow.write (type.balanced legible.2.2) .nil
    exact .expr (operand.balanced legible.1) (.fixed (by decide) behind)
  | ternary _ condition yes no =>
    simp only [forms, allLegible_append, allLegible_cons] at legible
    have condition := condition.balanced legible.1.1
    have yes := yes.balanced legible.1.2.2
    have no := no.balanced legible.2.2
    exact .expr condition (.fixed (by decide) (.expr yes (.fixed (by decide) (.expr no .nil))))
  | assignment _ target op value =>
    simp only [forms, allLegible_append, allLegible_cons] at legible
    have behind := BalancedRow.expr (value.balanced legible.2.2) .nil
    exact .expr (target.balanced legible.1) (.operator op.operator behind)

theorem Expr.balancedAll : (es : List Expr) → (∀ e ∈ es, AllLegible e.forms) →
    ∀ e ∈ es, Balanced e.written
  | [], _ => List.forall_mem_nil _
  | e :: es, legible => by
    rw [List.forall_mem_cons] at legible ⊢
    exact ⟨e.balanced legible.1, Expr.balancedAll es legible.2⟩

theorem Expr.balancedEntries : (es : List (Expr × Expr)) →
    (∀ e ∈ es, AllLegible (Expr.entryForms e)) →
    ∀ e ∈ es, Balanced e.1.written ∧ Balanced e.2.written
  | [], _ => List.forall_mem_nil _
  | (key, value) :: es, legible => by
    rw [List.forall_mem_cons] at legible ⊢
    obtain ⟨first, others⟩ := legible
    simp only [Expr.entryForms, allLegible_append, allLegible_cons] at first
    exact ⟨⟨key.balanced first.1, value.balanced first.2.2⟩, Expr.balancedEntries es others⟩

end

end Apex
