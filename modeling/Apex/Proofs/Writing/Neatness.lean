import Apex.Proofs.Writing.Expressions
import Apex.Proofs.Writing.Tightness

/-!
# Marks that keep a page clean

What stands before a row of marks matters only by what the line ends in there, and the marks lead
back to the level on which they start: `Neat`. Most constructs can be written wherever a line has
got to (`Whole`), or where a line could end (`Behind`), and leave something that a line may end
with. An expression is whole.
-/

namespace Apex

open Form Grammar

/-! ## Neat marks -/

/-- The marks can be written behind what a line ends in, leave it as said, and come back to the
level on which they start. The queries in them have the raw texts. -/
def Neat (raws : List (List Char)) (before : LineEnd) (marks : List Mark) (after : LineEnd) :
    Prop :=
  ∀ ⦃level : Nat⦄ ⦃more : List (List Char)⦄ ⦃rest : List Mark⦄, Fits after level more rest →
    Fits before level (raws ++ more) (marks ++ rest)

/-- The marks can be written wherever a line has got to, and can be the end of a line. -/
def Whole (raws : List (List Char)) (marks : List Mark) : Prop :=
  ∀ before, Neat raws before marks .solid

/-- The marks can be written where a line could end, and can be its end. -/
def Behind (raws : List (List Char)) (marks : List Mark) : Prop := Neat raws .solid marks .solid

variable {raws raws' : List (List Char)} {marks marks' : List Mark} {t : String}

namespace Neat

variable {before middle after : LineEnd}

theorem nil : Neat [] after [] after := fun _ _ _ rest => rest

theorem append (h : Neat raws before marks middle) (h' : Neat raws' middle marks' after) :
    Neat (raws ++ raws') before (marks ++ marks') after := by
  intro level more rest fits
  rw [List.append_assoc, List.append_assoc]
  exact h (h' fits)

theorem newline (h : Neat raws .fresh marks after) : Neat raws .solid (.newline :: marks) after :=
  fun _ _ _ rest => .newline (h rest)

theorem gap (h : Neat raws .fresh marks after) : Neat raws .solid (.gap :: marks) after :=
  fun _ _ _ rest => .gap (h rest)

/-- The marks, one level further in. -/
theorem nested (h : Neat raws before marks after) :
    Neat raws before (.indent :: marks ++ [.dedent]) after := by
  intro level more rest fits
  rw [List.append_assoc]
  exact .indent (h (.dedent fits))

/-- A text within a line. A line does not begin with it if it begins with a space. -/
theorem write (inner : Inline raws t.toList) (filled : t.toList ≠ [])
    (begins : before = .fresh → t.toList.head? ≠ some ' ')
    (later : Neat raws' (lineEnd t.toList) marks after) :
    Neat (raws ++ raws') before (.text t :: marks) after := by
  intro level more rest fits
  obtain ⟨outside, woven, free⟩ := inner
  have some : outside ≠ [] := by
    rintro rfl
    exact filled (List.head?_eq_none_iff.mp woven.head?_eq)
  rw [woven.head?_eq] at begins
  have behind := later fits
  rw [lineEnd, woven.getLast?_eq, ← lineEnd] at behind
  rw [List.append_assoc]
  exact .write woven free some begins behind

theorem nothing (h : Neat raws before marks after) : Neat raws before (.text "" :: marks) after :=
  fun _ _ _ rest => .nothing (h rest)

theorem flatMap {α : Type} {f : α → List (List Char)} {g : α → List Mark} {xs : List α}
    (h : ∀ x ∈ xs, Neat (f x) after (g x) after) :
    Neat (xs.flatMap f) after (xs.flatMap g) after := by
  induction xs with
  | nil => exact nil
  | cons x xs ih =>
    rw [List.forall_mem_cons] at h
    exact h.1.append (ih h.2)

end Neat

/-- Whether a text that is the same for every tree stands within a line. -/
def isInline (t : String) : Bool := t.toList.all (!isBreak ·) && !t.toList.isEmpty

/-- Whether a line may begin with the text. -/
def isOpening (t : String) : Bool := isInline t && t.toList.head? != some ' '

/-- Whether a line may end with the text. -/
def isClosing (t : String) : Bool := isInline t && t.toList.getLast? != some ' '

theorem Neat.fixed {before after : LineEnd} (within : isInline t = true)
    (begins : before = .fresh → t.toList.head? ≠ some ' ')
    (later : Neat raws (lineEnd t.toList) marks after) :
    Neat raws before (.text t :: marks) after := by
  rw [isInline, Bool.and_eq_true] at within
  exact .write (.fixed within.1) (by simpa using within.2) begins later

theorem lineEnd_of_isClosing (h : isClosing t = true) : lineEnd t.toList = .solid := by
  rw [isClosing, Bool.and_eq_true, bne_iff_ne] at h
  exact if_neg h.2

theorem Tight.lineEnd {text : List Char} (h : Tight raws text) : lineEnd text = .solid := by
  have last := h.ends
  refine if_neg fun blank => ?_
  rw [blank] at last
  cases last

/-- A text with which a line may end, behind something. -/
theorem Neat.ending {before : LineEnd} (closing : isClosing t = true)
    (h : Neat raws before marks .solid) : Neat raws before (marks ++ [.text t]) .solid := by
  have within := closing
  rw [isClosing, Bool.and_eq_true] at within
  have last : Neat [] .solid [.text t] .solid := by
    refine .fixed within.1 nofun ?_
    rw [lineEnd_of_isClosing closing]
    exact .nil
  have both := h.append last
  rwa [List.append_nil] at both

/-- A line with its end. -/
theorem Neat.ended {before : LineEnd} (h : Neat raws before marks .solid) :
    Neat raws before (marks ++ [.newline]) .fresh := by
  have both := h.append (Neat.newline .nil)
  rwa [List.append_nil] at both

namespace Whole

theorem behind (h : Whole raws marks) : Behind raws marks := h .solid

theorem append (h : Whole raws marks) (h' : Behind raws' marks') :
    Whole (raws ++ raws') (marks ++ marks') :=
  fun before => (h before).append h'

theorem ending (closing : isClosing t = true) (h : Whole raws marks) :
    Whole raws (marks ++ [.text t]) :=
  fun before => (h before).ending closing

/-- A text with which a line may begin, before anything. -/
theorem lead (opening : isOpening t = true) (h : Whole raws marks) :
    Whole raws (.text t :: marks) := by
  rw [isOpening, Bool.and_eq_true, bne_iff_ne] at opening
  exact fun before => .fixed opening.1 (fun _ => opening.2) (h _)

/-- A text with which a line may begin and end. -/
theorem text (opening : isOpening t = true) (closing : isClosing t = true)
    (h : Behind raws marks) : Whole raws (.text t :: marks) := by
  rw [isOpening, Bool.and_eq_true, bne_iff_ne] at opening
  refine fun before => .fixed opening.1 (fun _ => opening.2) ?_
  rw [lineEnd_of_isClosing closing]
  exact h

/-- A text of a tree. -/
theorem write (tight : Tight raws t.toList) (h : Behind raws' marks) :
    Whole (raws ++ raws') (.text t :: marks) := by
  have first := tight.begins
  refine fun before => .write tight.1 tight.ne_nil (fun _ blank => ?_) ?_
  · rw [blank] at first
    cases first
  · rw [tight.lineEnd]
    exact h

end Whole

namespace Behind

theorem nil : Behind [] [] := Neat.nil

theorem append (h : Behind raws marks) (h' : Behind raws' marks') :
    Behind (raws ++ raws') (marks ++ marks') :=
  Neat.append h h'

/-- A text before anything. -/
theorem lead (within : isInline t = true) (h : Whole raws marks) : Behind raws (.text t :: marks) :=
  .fixed within nofun (h _)

/-- A text with which a line may end. -/
theorem text (closing : isClosing t = true) (h : Behind raws marks) :
    Behind raws (.text t :: marks) := by
  have within := closing
  rw [isClosing, Bool.and_eq_true] at within
  refine .fixed within.1 nofun ?_
  rw [lineEnd_of_isClosing closing]
  exact h

/-- A text of a tree with a word before it. -/
theorem trail {word text : List Char} (within : word.all (!isBreak ·) = true)
    (tight : Tight raws text) (spelled : t.toList = word ++ text) (h : Behind raws' marks) :
    Behind (raws ++ raws') (.text t :: marks) := by
  have filled := tight.ne_nil
  have ending : lineEnd t.toList = .solid := by
    rw [lineEnd, spelled, List.getLast?_append_of_ne_nil _ filled, ← lineEnd]
    exact tight.lineEnd
  have inner : Inline raws t.toList := by
    rw [spelled]
    exact (Inline.fixed within).append tight.1
  refine .write inner ?_ nofun ?_
  · rw [spelled]
    exact List.append_ne_nil_of_right_ne_nil _ filled
  · rw [ending]
    exact h

/-- An operator between operands, in its blanks. -/
theorem operator (o : Operator) (h : Whole raws marks) :
    Behind raws (.text " " :: .text o.spelling :: .text " " :: marks) := by
  have tight : isOpening o.spelling = true ∧ isClosing o.spelling = true := by
    cases o <;> decide
  exact .lead (by decide) (.text tight.1 tight.2 (.lead (by decide) h))

end Behind

/-! ### Lists -/

section

variable {α : Type} {f : α → List (List Char)} {g : α → List Mark} {xs : List α}

/-- A list with commas between its items. -/
theorem Whole.commas (h : ∀ x ∈ xs, Whole (f x) (g x)) (filled : xs ≠ []) :
    Whole (xs.flatMap f) (commaMarks (xs.map g)) := by
  obtain ⟨x, xs, rfl⟩ := List.exists_cons_of_ne_nil filled
  rw [List.forall_mem_cons] at h
  rw [List.flatMap_cons, List.map_cons, commaMarks, List.flatMap_map]
  have others : Behind (xs.flatMap f) (xs.flatMap fun x => .text ", " :: g x) :=
    Neat.flatMap fun y mem => Behind.lead (by decide) (h.2 y mem)
  exact h.1.append others

/-- A list that may be empty. -/
theorem Behind.commas (h : ∀ x ∈ xs, Whole (f x) (g x)) :
    Behind (xs.flatMap f) (commaMarks (xs.map g)) := by
  by_cases filled : xs = []
  · subst filled
    exact .nil
  · exact (Whole.commas h filled).behind

end

/-- Lines within braces. -/
theorem Neat.braces (h : Neat raws .fresh marks .fresh) :
    Behind raws (.newline :: .indent :: marks ++ [.dedent, .text "\x7d"]) := by
  have closing : Whole [] [.text "\x7d"] := .text (by decide) (by decide) .nil
  have lines : Behind _ _ := (h.nested.append (closing .fresh)).newline
  simpa using lines

/-! ## Expressions -/

theorem Behind.operand {e : Expr} (h : Whole raws e.marks) :
    Behind raws ((Piece.operand e).flatMap Piece.marks) := by
  unfold Piece.operand
  split
  · simpa [Piece.marks] using Behind.lead (t := " ") (by decide) h
  · simpa [Piece.marks] using h.behind

/-- Something between two texts, which may be empty. -/
theorem Behind.between (opening closing : String)
    (marked : (isClosing opening && isClosing closing) = true) (h : Behind raws marks) :
    Behind raws (.text opening :: marks ++ [.text closing]) := by
  rw [Bool.and_eq_true] at marked
  exact Neat.ending marked.2 (h.text marked.1)

/-- What `new` makes, before what follows the type. -/
theorem Whole.made {type : TypeRef} (sound : type.node.IsSound) (legible : AllLegible type.forms)
    (h : Behind raws marks) : Whole raws (.text "new " :: .text type.text :: marks) :=
  .lead (by decide) (.write (type.tight sound legible) h)

mutual

/-- An expression stands on one line. -/
theorem Expr.whole (e : Expr) (sound : e.node.IsSound) (legible : AllLegible e.forms) :
    Whole (Form.raws e.forms) e.marks := by
  have below := sound.children
  rw [marks_eq]
  cases e with
  | literal _ value =>
    simpa [pieces, Piece.marks, forms] using Whole.write value.tight .nil
  | name _ text =>
    have word := isWord_of_legible_named (allLegible_cons.mp legible).1
    simpa [pieces, Piece.marks, forms] using Whole.write (.word word) .nil
  | this _ | super _ => exact .text (by decide) (by decide) .nil
  | paren _ inner =>
    simp only [node, Node.children, Node.allSound_cons] at below
    have inner := inner.whole below.1 (allLegible_parens.mp legible)
    have closed := inner.ending (t := ")") (by decide)
    simpa [pieces, Piece.marks, forms] using closed.lead (t := "(") (by decide)
  | member _ object part =>
    simp only [node, Node.children, Node.allSound_cons] at below
    simp only [forms, allLegible_append, allLegible_cons] at legible
    have part := Whole.write (.word legible.2.2.1) .nil
    have behind := Behind.lead (t := ".") (by decide) part
    simpa [pieces, Piece.marks, forms] using (object.whole below.1 legible.1).append behind
  | call _ callee args =>
    simp only [node, Node.children, Node.allSound_cons, nodes_eq_map, Node.allSound_map] at below
    simp only [forms, allLegible_cons, allLegible_parens, allLegible_commas, formsOf_eq_map,
      List.forall_mem_map] at legible
    have args := (Behind.commas (Expr.wholeAll args below.2 legible.2)).between "(" ")" (by decide)
    have word := isWord_of_legible_wordKind legible.1
    simpa [pieces, Piece.marks, Piece.arguments, Piece.marks_list, forms] using
      Whole.write (.word word) args
  | methodCall _ receiver callee args =>
    simp only [node, Node.children, Node.allSound_cons, nodes_eq_map, Node.allSound_map] at below
    simp only [forms, allLegible_append, allLegible_cons, allLegible_parens, allLegible_commas,
      formsOf_eq_map, List.forall_mem_map] at legible
    have args := (Behind.commas (Expr.wholeAll args below.2.2 legible.2.2.2)).between "(" ")" (by decide)
    have called := Behind.lead (t := ".") (by decide) (.write (.word legible.2.2.1) args)
    simpa [pieces, Piece.marks, Piece.arguments, Piece.marks_list, forms] using
      (receiver.whole below.1 legible.1).append called
  | index _ object position =>
    simp only [node, Node.children, Node.allSound_cons] at below
    simp only [forms, allLegible_append, allLegible_cons] at legible
    have position := (position.whole below.2.1 legible.1.2.2).ending (t := "]") (by decide)
    have behind := Behind.lead (t := "[") (by decide) position
    simpa [pieces, Piece.marks, forms] using (object.whole below.1 legible.1.1).append behind
  | newObject _ type args =>
    simp only [node, Node.children, Node.allSound_cons, nodes_eq_map, Node.allSound_map] at below
    simp only [forms, allLegible_append, allLegible_cons, allLegible_parens, allLegible_commas,
      formsOf_eq_map, List.forall_mem_map] at legible
    have args := (Behind.commas (Expr.wholeAll args below.2 legible.2)).between "(" ")" (by decide)
    simpa [pieces, Piece.marks, Piece.arguments, Piece.marks_list, forms] using
      Whole.made below.1 legible.1.2 args
  | newArray _ type size =>
    simp only [node, Node.children, Node.allSound_cons] at below
    simp only [forms, allLegible_append, allLegible_cons] at legible
    have size := (size.whole below.2.1 legible.1.2.2).ending (t := "]") (by decide)
    have behind := Behind.lead (t := "[") (by decide) size
    simpa [pieces, Piece.marks, forms] using Whole.made below.1 legible.1.1.2 behind
  | newArrayOf _ type es =>
    simp only [node, Node.children, Node.allSound_cons, nodes_eq_map, Node.allSound_map] at below
    simp only [forms, allLegible_append, allLegible_cons, allLegible_braces, allLegible_commas,
      formsOf_eq_map, List.forall_mem_map] at legible
    have elements := (Behind.commas (Expr.wholeAll es below.2 legible.2.2.2)).between "\x7b" "\x7d" (by decide)
    have behind := elements.text (t := "[]") (by decide)
    simpa [pieces, Piece.marks, Piece.elements, Piece.marks_list, forms] using
      Whole.made below.1 legible.1.2 behind
  | newCollection _ type es =>
    simp only [node, Node.children, Node.allSound_cons, nodes_eq_map, Node.allSound_map] at below
    simp only [forms, allLegible_append, allLegible_cons, allLegible_braces, allLegible_commas,
      formsOf_eq_map, List.forall_mem_map] at legible
    have elements := (Behind.commas (Expr.wholeAll es below.2 legible.2)).between "\x7b" "\x7d" (by decide)
    simpa [pieces, Piece.marks, Piece.elements, Piece.marks_list, forms] using
      Whole.made below.1 legible.1.2 elements
  | newMap _ type entries =>
    simp only [node, Node.children, Node.allSound_cons] at below
    simp only [forms, allLegible_append, allLegible_cons, allLegible_braces, allLegible_commas,
      formsOfEntries_eq_map, List.forall_mem_map] at legible
    have inner := (Behind.commas (Expr.wholeEntries entries below.2 legible.2)).between "\x7b" "\x7d" (by decide)
    simpa [pieces, Piece.marks, Piece.marks_entries, forms] using
      Whole.made below.1 legible.1.2 inner
  | cast _ type operand =>
    simp only [node, Node.children, Node.allSound_cons] at below
    simp only [forms, allLegible_append, allLegible_parens] at legible
    have operand := operand.whole below.2.1 legible.2
    have behind := Behind.lead (t := ") ") (by decide) operand
    have type := Whole.write (type.tight below.1 legible.1) behind
    simpa [pieces, Piece.marks, forms] using type.lead (t := "(") (by decide)
  | unary _ op operand =>
    simp only [node, Node.children, Node.allSound_cons] at below
    simp only [forms, allLegible_cons] at legible
    have operand := Behind.operand (operand.whole below.1 legible.2)
    have before := Whole.text (t := op.operator.spelling) (by cases op <;> decide)
      (by cases op <;> decide) operand
    simpa [pieces, Piece.marks, forms] using before
  | stepBefore _ op operand =>
    simp only [node, Node.children, Node.allSound_cons] at below
    simp only [forms, allLegible_cons] at legible
    have operand := Behind.operand (operand.whole below.1 legible.2)
    have before := Whole.text (t := op.operator.spelling) (by cases op <;> decide)
      (by cases op <;> decide) operand
    simpa [pieces, Piece.marks, forms] using before
  | stepAfter _ op operand =>
    simp only [node, Node.children, Node.allSound_cons] at below
    simp only [forms, allLegible_append] at legible
    have behind := Behind.text (t := op.operator.spelling) (by cases op <;> decide) .nil
    simpa [pieces, Piece.marks, forms] using (operand.whole below.1 legible.1).append behind
  | binary _ left op right =>
    simp only [node, Node.children, Node.allSound_cons] at below
    simp only [forms, allLegible_append, allLegible_cons] at legible
    have behind := Behind.operator op.operator (right.whole below.2.1 legible.2.2)
    simpa [pieces, Piece.marks, Piece.operation, forms] using
      (left.whole below.1 legible.1).append behind
  | instanceOf _ operand type =>
    simp only [node, Node.children, Node.allSound_cons] at below
    simp only [forms, allLegible_append, allLegible_cons] at legible
    have type := Whole.write (type.tight below.2.1 legible.2.2) .nil
    have behind := Behind.lead (t := " instanceof ") (by decide) type
    simpa [pieces, Piece.marks, forms] using (operand.whole below.1 legible.1).append behind
  | ternary _ condition yes no =>
    simp only [node, Node.children, Node.allSound_cons] at below
    simp only [forms, allLegible_append, allLegible_cons] at legible
    have no := Behind.lead (t := " : ") (by decide) (no.whole below.2.2.1 legible.2.2)
    have yes := Behind.lead (t := " ? ") (by decide)
      ((yes.whole below.2.1 legible.1.2.2).append no)
    simpa [pieces, Piece.marks, forms] using (condition.whole below.1 legible.1.1).append yes
  | assignment _ target op value =>
    simp only [node, Node.children, Node.allSound_cons] at below
    simp only [forms, allLegible_append, allLegible_cons] at legible
    have behind := Behind.operator op.operator (value.whole below.2.1 legible.2.2)
    simpa [pieces, Piece.marks, Piece.operation, forms] using
      (target.whole below.1 legible.1).append behind

theorem Expr.wholeAll : (es : List Expr) → (∀ e ∈ es, e.node.IsSound) →
    (∀ e ∈ es, AllLegible e.forms) → ∀ e ∈ es, Whole (Form.raws e.forms) e.marks
  | [], _, _ => List.forall_mem_nil _
  | e :: es, sound, legible => by
    rw [List.forall_mem_cons] at sound legible ⊢
    exact ⟨e.whole sound.1 legible.1, Expr.wholeAll es sound.2 legible.2⟩

theorem Expr.wholeEntries : (es : List (Expr × Expr)) → (∀ n ∈ Expr.entryNodes es, n.IsSound) →
    (∀ e ∈ es, AllLegible (Expr.entryForms e)) →
    ∀ e ∈ es, Whole (Form.raws (Expr.entryForms e)) (Expr.entryMarks e)
  | [], _, _ => List.forall_mem_nil _
  | (key, value) :: es, sound, legible => by
    rw [List.forall_mem_cons] at legible ⊢
    rw [Expr.entryNodes, List.forall_mem_cons] at sound
    refine ⟨?_, Expr.wholeEntries es sound.2 legible.2⟩
    have below := sound.1.children
    simp only [Node.children, Node.allSound_cons] at below
    simp only [Expr.entryForms, allLegible_append, allLegible_cons] at legible
    have value := value.whole below.2.1 legible.1.2.2
    have behind := Behind.lead (t := " => ") (by decide) value
    simpa [Expr.entryForms, Expr.entryMarks] using
      (key.whole below.1 legible.1.1).append behind

end

end Apex
