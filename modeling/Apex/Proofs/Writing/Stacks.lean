import Apex.Layout.Statement

/-!
# Stacks and recursion

The loop that writes an expression keeps pieces on a stack. It writes the same as the recursion
that takes the pieces of an expression in order and writes each expression among them in its place:
what the stack holds is what the recursion has still to write. This is true of any writer, so also
of a page in any state.
-/

namespace Apex

variable {σ τ : Type} {write : σ → String → σ} {write' : τ → String → τ}

/-! ## The recursion -/

theorem Piece.weight_pos (p : Piece) : 0 < p.weight := by
  cases p with
  | text text => exact Nat.one_pos
  | expr e => exact Nat.zero_lt_of_lt (weights_pieces_lt e)

mutual

/-- Writes an expression by recursion: its pieces in order. -/
def Expr.printInPlace (write : σ → String → σ) (done : σ) (e : Expr) : σ :=
  Piece.printAll write done e.pieces
termination_by 2 * (Piece.expr e).weight
decreasing_by
  have := Piece.weights_pieces_lt e
  omega

/-- Writes pieces in order, the expressions among them in their place. -/
def Piece.printAll (write : σ → String → σ) (done : σ) : List Piece → σ
  | [] => done
  | .text text :: ps => Piece.printAll write (write done text) ps
  | .expr e :: ps => Piece.printAll write (e.printInPlace write done) ps
termination_by ps => 2 * Piece.weights ps + 1
decreasing_by
  · simp [Piece.weights, Piece.weight]
  · simp only [Piece.weights]
    omega
  · have := (Piece.expr e).weight_pos
    simp only [Piece.weights]
    omega

end

namespace Piece

theorem printAll_nil (done : σ) : printAll write done [] = done := by rw [printAll]

theorem printAll_text (done : σ) (text : String) (ps : List Piece) :
    printAll write done (.text text :: ps) = printAll write (write done text) ps := by
  rw [printAll]

theorem printAll_expr (done : σ) (e : Expr) (ps : List Piece) :
    printAll write done (.expr e :: ps) =
      printAll write (e.printInPlace write done) ps := by
  rw [printAll]

/-- Pieces behind each other are written behind each other. -/
theorem printAll_append (done : σ) (ps qs : List Piece) :
    printAll write done (ps ++ qs) = printAll write (printAll write done ps) qs := by
  induction ps generalizing done with
  | nil => rw [List.nil_append, printAll_nil]
  | cons p ps ih =>
    cases p with
    | text text => rw [List.cons_append, printAll_text, printAll_text, ih]
    | expr e => rw [List.cons_append, printAll_expr, printAll_expr, ih]

end Piece

/-! ## What the writer is does not matter -/

mutual

/-- If one writer follows another text by text, it does so expression by expression. -/
theorem Expr.printInPlace_map {f : σ → τ}
    (step : ∀ done text, f (write done text) = write' (f done) text)
    (done : σ) (e : Expr) :
    f (e.printInPlace write done) = e.printInPlace write' (f done) := by
  rw [Expr.printInPlace, Expr.printInPlace]
  exact Piece.printAll_map step done e.pieces
termination_by 2 * (Piece.expr e).weight
decreasing_by
  have := Piece.weights_pieces_lt e
  omega

theorem Piece.printAll_map {f : σ → τ}
    (step : ∀ done text, f (write done text) = write' (f done) text)
    (done : σ) (ps : List Piece) :
    f (Piece.printAll write done ps) = Piece.printAll write' (f done) ps := by
  match ps with
  | [] => rw [Piece.printAll_nil, Piece.printAll_nil]
  | .text text :: ps =>
    rw [Piece.printAll_text, Piece.printAll_text, Piece.printAll_map step _ ps, step]
  | .expr e :: ps =>
    rw [Piece.printAll_expr, Piece.printAll_expr, Piece.printAll_map step _ ps,
      Expr.printInPlace_map step done e]
termination_by 2 * Piece.weights ps + 1
decreasing_by
  · simp [Piece.weights, Piece.weight]
  · have := (Piece.expr e).weight_pos
    simp only [Piece.weights]
    omega
  · simp only [Piece.weights]
    omega

end

/-! ## The loop -/

namespace Piece

/-- What the recursion makes of a stack, from its top down. -/
def printRest (write : σ → String → σ) (done : σ) (stack : Array Piece) : σ :=
  printAll write done stack.toList.reverse

theorem printRest_empty {stack : Array Piece} (none : stack.back? = none) (done : σ) :
    printRest write done stack = done := by
  rw [Array.back?_eq_none_iff] at none
  simp [printRest, none, printAll_nil]

/-- A turn of the loop that writes a text changes nothing of what is written in the end. -/
theorem printRest_text {stack : Array Piece} {written : String}
    (top : stack.back? = some (.text written)) (done : σ) :
    printRest write done stack = printRest write (write done written) stack.pop := by
  obtain ⟨below, rfl⟩ := Array.back?_eq_some_iff.mp top
  simp [printRest, printAll_text]

/-- A turn that takes an expression apart in an empty buffer changes nothing of it either. -/
theorem printRest_expr {stack : Array Piece} {e : Expr} (top : stack.back? = some (.expr e))
    (done : σ) :
    printRest write done stack =
      printRest write done (stack.pop ++ ((#[] : Array Piece) ++ e.pieces).reverse) := by
  obtain ⟨below, rfl⟩ := Array.back?_eq_some_iff.mp top
  simp [printRest, printAll_expr, printAll_append, Expr.printInPlace]

/-- The loop writes what the recursion makes of the stack. The buffer is empty at every turn. -/
theorem printStack_eq (done : σ) (stack : Array Piece) :
    printStack write done stack #[] = printRest write done stack := by
  generalize empty : (#[] : Array Piece) = buffer
  fun_induction printStack write done stack buffer with
  | case1 done stack buffer none => exact (printRest_empty none done).symm
  | case2 done stack buffer written top ih => rw [ih empty, printRest_text top]
  | case3 done stack buffer e top pieces ih =>
    subst empty
    rw [ih rfl, printRest_expr top]

end Piece

theorem Expr.print_eq (done : σ) (e : Expr) : e.print write done = e.printInPlace write done := by
  rw [print, Piece.printStack_eq]
  simp [Piece.printRest, Piece.printAll_expr, Piece.printAll_nil]

/-- The texts of an expression, written on anything, are the expression written on it. -/
theorem Expr.foldl_texts (done : σ) (e : Expr) :
    e.texts.foldl write done = e.printInPlace write done := by
  have follows : ∀ (texts : Array String) (text : String),
      (texts.push text).foldl write done = write (texts.foldl write done) text := by simp
  have same := e.printInPlace_map (f := fun texts => texts.foldl write done) follows #[]
  simpa [texts, print_eq] using same

/-- The texts of an expression come behind what has been written. -/
theorem Expr.toList_printInPlace (done : Array String) (e : Expr) :
    (e.printInPlace Array.push done).toList = done.toList ++ e.texts := by
  have same : e.texts.foldl Array.push done = _ := e.foldl_texts done
  rw [← same]
  simp

/-- On a page in any state, an expression is written as the recursion writes it: by the loop, and
as the marks with which a program is laid out. -/
theorem Expr.print_onPage (settings : LayoutSettings) (page : Page) (e : Expr) :
    e.print (Page.write settings) page = e.printInPlace (Page.write settings) page ∧
      e.marks.foldl (Page.mark settings) page = e.printInPlace (Page.write settings) page := by
  refine ⟨e.print_eq page, ?_⟩
  rw [marks, List.foldl_map]
  exact e.foldl_texts page

end Apex
