import Apex.Proofs.Tiling.Lines
import Apex.Proofs.Writing.Pages
import Apex.Source.Line

/-!
# Pages and their lines

The marks of a page say what is on its lines. The settings only say how far the lines are indented
and how many blank lines there are between them, so without both all pages of one row of marks are
the same.
-/

namespace Apex

/-! ## The lines of a text -/

theorem newlinePieces_ne_nil (cs : List Char) : newlinePieces cs ≠ [] := by
  cases cs with
  | nil => exact List.cons_ne_nil _ _
  | cons c cs =>
    unfold newlinePieces
    rw [List.foldr_cons]
    split
    · exact List.cons_ne_nil _ _
    · split <;> exact List.cons_ne_nil _ _

theorem newlinePieces_newline (cs : List Char) :
    newlinePieces ('\n' :: cs) = [] :: newlinePieces cs := by
  obtain ⟨piece, later, pieces⟩ := List.exists_cons_of_ne_nil (newlinePieces_ne_nil cs)
  unfold newlinePieces at pieces ⊢
  rw [List.foldr_cons, pieces]
  rfl

theorem newlinePieces_cons {c : Char} (inside : c ≠ '\n') (cs : List Char) :
    newlinePieces (c :: cs) = (newlinePieces cs).modifyHead (c :: ·) := by
  obtain ⟨piece, later, pieces⟩ := List.exists_cons_of_ne_nil (newlinePieces_ne_nil cs)
  rw [pieces]
  unfold newlinePieces at pieces ⊢
  rw [List.foldr_cons, pieces]
  exact if_neg inside

/-- A line end separates the lines before it from those behind it. -/
theorem newlinePieces_append (cs rest : List Char) :
    newlinePieces (cs ++ '\n' :: rest) = newlinePieces cs ++ newlinePieces rest := by
  induction cs with
  | nil => exact newlinePieces_newline rest
  | cons c cs ih =>
    rw [List.cons_append]
    by_cases ends : c = '\n'
    · subst ends
      rw [newlinePieces_newline, newlinePieces_newline, ih, List.cons_append]
    · obtain ⟨piece, later, pieces⟩ := List.exists_cons_of_ne_nil (newlinePieces_ne_nil cs)
      rw [newlinePieces_cons ends, newlinePieces_cons ends, ih, pieces]
      rfl

/-- What is on the lines of a text, without the spaces at their beginnings and without the lines on
which nothing is left. -/
def bareLines (cs : List Char) : List (List Char) :=
  ((newlinePieces cs).map fun line => line.dropWhile (· == ' ')).filter (!·.isEmpty)

theorem bareLines_append (cs rest : List Char) :
    bareLines (cs ++ '\n' :: rest) = bareLines cs ++ bareLines rest := by
  unfold bareLines
  rw [newlinePieces_append, List.map_append, List.filter_append]

theorem bareLines_newline (cs : List Char) : bareLines ('\n' :: cs) = bareLines cs :=
  bareLines_append [] cs

theorem bareLines_margin (margin : Nat) (cs : List Char) :
    bareLines (List.replicate margin ' ' ++ cs) = bareLines cs := by
  induction margin with
  | zero => rfl
  | succ margin ih =>
    obtain ⟨piece, later, pieces⟩ :=
      List.exists_cons_of_ne_nil (newlinePieces_ne_nil (List.replicate margin ' ' ++ cs))
    rw [← ih, List.replicate_succ, List.cons_append]
    unfold bareLines
    rw [newlinePieces_cons (by decide), pieces]
    rfl

/-! ## The lines of a page -/

/-- What the marks write on the lines of a page, without indentation. What is written on the last
line comes last, and the first line may have been begun before. -/
def pageLines : List Mark → List (List Char)
  | [] => [[]]
  | .text text :: marks => (pageLines marks).modifyHead (text.toList ++ ·)
  | .newline :: marks | .gap :: marks => [] :: pageLines marks
  | .indent :: marks | .dedent :: marks => pageLines marks

/-- The text holds the lines one behind the other. Behind each comes its end and before it may stand
spaces. There may be blank lines, and the text need not show lines with nothing on them. -/
inductive LaidOut : List (List Char) → List Char → Prop where
  | nil : LaidOut [] []
  | skip {lines : List (List Char)} {cs : List Char} (later : LaidOut lines cs) :
    LaidOut ([] :: lines) cs
  | blank {lines : List (List Char)} {cs : List Char} (later : LaidOut lines cs) :
    LaidOut lines ('\n' :: cs)
  | line {lines : List (List Char)} {cs : List Char} (margin : Nat) (line : List Char)
    (later : LaidOut lines cs) :
    LaidOut (line :: lines) (List.replicate margin ' ' ++ line ++ '\n' :: cs)

namespace LaidOut

variable {lines : List (List Char)} {cs : List Char}

theorem blanks (h : LaidOut lines cs) (n : Nat) :
    LaidOut lines (List.replicate n '\n' ++ cs) := by
  induction n with
  | zero => exact h
  | succ n ih => exact .blank ih

/-- Without spaces at their beginnings and without blank lines, the lines are all that is left. -/
theorem bareLines_eq (h : LaidOut lines cs) : bareLines cs = lines.flatMap bareLines := by
  induction h with
  | nil => rfl
  | skip later ih => rw [List.flatMap_cons, ← ih]; rfl
  | blank later ih => rw [bareLines_newline, ih]
  | line margin line later ih =>
    rw [bareLines_append, bareLines_margin, ih, List.flatMap_cons]

/-- The lines are read one behind the other if each is settled. -/
theorem saysSame_lexFrom (h : LaidOut lines cs) (settled : ∀ line ∈ lines, Settled 0 line)
    {l l' : Lexing} (same : l.SaysSame l') :
    (lexFrom l 0 cs).SaysSame (lines.foldl (fun l line => lexFrom l 0 line) l') := by
  have ending (l : Lexing) (cs : List Char) :
      lexFrom l 0 ('\n' :: cs) = lexFrom (l.pass ['\n']) 0 cs :=
    lexFrom_blank (.gap rfl .nil) l cs (absurd · Bool.false_ne_true)
  induction h generalizing l l' with
  | nil => exact same
  | skip later ih => exact ih (List.forall_mem_cons.mp settled).2 same
  | blank later ih =>
    rw [ending]
    exact ih settled (same.pass _)
  | @line lines cs margin line later ih =>
    obtain ⟨first, others⟩ := List.forall_mem_cons.mp settled
    have isBlank : IsBlank false (List.replicate margin ' ') := by
      induction margin with
      | zero => exact .nil
      | succ margin ih => exact .gap rfl ih
    rw [List.append_assoc, lexFrom_blank isBlank l _ nofun, (first.reaches _ cs).lexFrom, ending]
    exact ih others (((same.pass _).lexFrom line).pass _)

end LaidOut

/-- Whatever the settings are, marks write the lines of their page: at the start of a line, and
behind what the line begins with. -/
theorem laidOut_put (settings : LayoutSettings) (marks : List Mark) (level : Nat) :
    LaidOut (pageLines marks) (put settings level true marks) ∧
      ∀ (margin : Nat) (begun : List Char),
        LaidOut ((pageLines marks).modifyHead (begun ++ ·))
          (List.replicate margin ' ' ++ begun ++ put settings level false marks) := by
  induction marks generalizing level with
  | nil =>
    refine ⟨.skip .nil, fun margin begun => ?_⟩
    have last : LaidOut [begun] (List.replicate margin ' ' ++ begun ++ ['\n']) :=
      .line margin begun .nil
    rw [pageLines, List.modifyHead_cons, List.append_nil]
    exact last
  | cons m marks ih =>
    cases m with
    | text text =>
      rw [pageLines]
      by_cases empty : text.isEmpty = true
      · have nothing : text.toList = [] := by simpa using empty
        simp only [put, empty, if_true, nothing, List.nil_append]
        have same : (pageLines marks).modifyHead (fun line => line) = pageLines marks :=
          congrFun List.modifyHead_id _
        rw [same]
        exact ih level
      · rw [Bool.not_eq_true] at empty
        simp only [put, empty, Bool.false_eq_true, if_false, if_true, List.nil_append,
          List.modifyHead_modifyHead]
        refine ⟨(ih level).2 _ _, fun margin begun => ?_⟩
        have longer := (ih level).2 margin (begun ++ text.toList)
        simp only [List.append_assoc] at longer ⊢
        exact longer
    | newline =>
      refine ⟨.skip (.blank (ih level).1), fun margin begun => ?_⟩
      rw [pageLines, List.modifyHead_cons, List.append_nil]
      exact .line margin begun (ih level).1
    | indent => exact ih (level + 1)
    | dedent => exact ih (level - 1)
    | gap =>
      have later := (ih level).1.blanks settings.memberGap
      rw [put, put, pageLines]
      refine ⟨.skip later, fun margin begun => ?_⟩
      rw [List.modifyHead_cons, List.append_nil]
      exact .line margin begun later

/-- The text of marks holds the lines of their page. -/
theorem laidOut_renderMarks (settings : LayoutSettings) (marks : List Mark) :
    LaidOut (pageLines marks) (renderMarks settings marks).toList := by
  rw [toList_renderMarks]
  exact (laidOut_put settings marks 0).1

end Apex
