import Apex.Proofs.Writing.Stacks

/-!
# The texts of an expression

An expression is written as its pieces one behind the other, although the pieces are kept on a stack
of what is still to be written. Writing pieces is therefore writing each of them.
-/

namespace Apex

namespace Piece

/-- The texts that a piece is written as. -/
def texts : Piece → List String
  | .text written => [written]
  | .expr e => e.texts

theorem toList_printAll (done : Array String) (ps : List Piece) :
    (printAll Array.push done ps).toList = done.toList ++ ps.flatMap texts := by
  induction ps generalizing done with
  | nil => simp [printAll_nil]
  | cons p ps ih =>
    cases p with
    | text written => simp [printAll_text, ih, texts]
    | expr e => simp [printAll_expr, ih, texts, e.toList_printInPlace]

/-- Texts between commas. -/
def commaTexts : List (List String) → List String
  | [] => []
  | item :: items => item ++ items.flatMap fun item => ", " :: item

/-- The texts of a key with its value. -/
def entryTexts (entry : Expr × Expr) : List String := entry.1.texts ++ " => " :: entry.2.texts

theorem texts_list (es : List Expr) :
    (list es).flatMap texts = commaTexts (es.map Expr.texts) := by
  cases es with
  | nil => rfl
  | cons e es => simp [list, commaTexts, texts, List.flatMap_assoc, List.flatMap_map]

theorem texts_entries (es : List (Expr × Expr)) :
    (entries es).flatMap texts = commaTexts (es.map entryTexts) := by
  cases es with
  | nil => rfl
  | cons e es =>
    simp [entries, entry, commaTexts, entryTexts, texts, List.flatMap_assoc, List.flatMap_map]

end Piece

/-- An expression is written as its pieces. -/
theorem Expr.texts_eq (e : Expr) : e.texts = e.pieces.flatMap Piece.texts := by
  have inPlace := Piece.toList_printAll #[] e.pieces
  rwa [← printInPlace, ← print_eq, List.nil_append] at inPlace

end Apex
