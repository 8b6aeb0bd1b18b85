import Apex.Layout.Difference
import Apex.Proofs.Decimals.Texts
import Apex.Proofs.Writing.Margins
import Apex.Proofs.Writing.Tokens

/-!
# Reports read back

A report on two texts is a row of changes, one on each of its lines: a sign, a line number and the
text of the line. A text may hold the bar that separates it from the number, but no line end, so a
report is read back without doubt.
-/

namespace Apex

/-! ## Changes -/

/-- One line of a report. -/
structure Change where
  /-- Whether the line is one of the new text, and not of the old one. -/
  isNew : Bool
  /-- The number of the line, from one. -/
  number : Nat
  /-- The line. -/
  text : String
deriving DecidableEq, Repr

namespace Change

/-- The sign before a change. -/
def sign (c : Change) : String := if c.isNew then "+" else "-"

/-- A change as it is written. -/
def written (c : Change) : String := c.sign ++ lineNumber c.number ++ " | " ++ c.text ++ "\n"

/-- The text of a change stands on one line. -/
def OnOneLine (c : Change) : Prop := '\n' ∉ c.text.toList

end Change

/-- Changes as they are written. -/
def reportOf (changes : List Change) : String := String.join (changes.map Change.written)

/-! ## Reading -/

/-- Reads the sign of a change. -/
def readSign : Char → Option Bool
  | '+' => some true
  | '-' => some false
  | _ => none

/-- Reads a line of a report: a sign, a number behind blanks, a bar between blanks, and a text. -/
def readChange : List Char → Option Change
  | [] => none
  | sign :: line =>
    let field := line.dropWhile (· == ' ')
    match readSign sign, field.dropWhile Char.isDigit with
    | some isNew, ' ' :: '|' :: ' ' :: text =>
      some ⟨isNew, decimalValue (field.takeWhile Char.isDigit), String.ofList text⟩
    | _, _ => none

/-- Reads a report line by line. -/
def readChanges (report : String) : Option (List Change) :=
  (newlinePieces report.toList).dropLast.mapM readChange

/-! ## What is written is read -/

theorem toList_lineNumber (n : Nat) :
    (lineNumber n).toList =
      List.replicate (4 - (toString n).length) ' ' ++ Nat.toDigits 10 n := by
  rw [lineNumber, String.toList_append, String.toList_ofList]
  exact congrArg _ Nat.toList_repr

namespace Change

/-- What stands on the line of a change. -/
def line (c : Change) : List Char :=
  c.sign.toList ++ (lineNumber c.number).toList ++ [' ', '|', ' '] ++ c.text.toList

theorem toList_written (c : Change) : c.written.toList = c.line ++ ['\n'] := by
  simp only [written, String.toList_append]
  rfl

theorem notMem_line {c : Change} (one : c.OnOneLine) : '\n' ∉ c.line := by
  have sign : '\n' ∉ c.sign.toList := by
    unfold Change.sign
    split <;> decide
  have number : '\n' ∉ (lineNumber c.number).toList := by
    rw [toList_lineNumber]
    refine List.not_mem_append (fun mem => nomatch List.eq_of_mem_replicate mem) fun mem => ?_
    exact nomatch Nat.isDigit_of_mem_toDigits (by decide) (by decide) mem
  exact List.not_mem_append (List.not_mem_append (List.not_mem_append sign number) (by decide)) one

/-- The line of a change is read as the change. -/
theorem readChange_line (c : Change) : readChange c.line = some c := by
  obtain ⟨isNew, number, text⟩ := c
  have spelled : line ⟨isNew, number, text⟩ = (if isNew then '+' else '-') ::
      (List.replicate (4 - (toString number).length) ' ' ++
        (Nat.toDigits 10 number ++ ' ' :: '|' :: ' ' :: text.toList)) := by
    rw [line, toList_lineNumber]
    cases isNew <;> simp [sign]
  have bar : Stops Char.isDigit (' ' :: '|' :: ' ' :: text.toList) := .cons rfl _
  have digits : Stops (· == ' ') (Nat.toDigits 10 number ++ ' ' :: '|' :: ' ' :: text.toList) := by
    intro c first
    have digit := isDigit_head_toDigits number _ c first
    refine beq_false_of_ne ?_
    rintro rfl
    cases digit
  have blanks : (List.replicate (4 - (toString number).length) ' ').all (· == ' ') = true :=
    List.all_eq_true.mpr fun c mem => beq_iff_eq.mpr (List.eq_of_mem_replicate mem)
  have field := digits.dropWhile_append blanks
  have whole := bar.takeWhile_append (all_isDigit_toDigits number)
  have rest := bar.dropWhile_append (all_isDigit_toDigits number)
  have sign : readSign (if isNew then '+' else '-') = some isNew := by cases isNew <;> rfl
  rw [spelled, readChange]
  simp only [field, whole, rest, sign, decimalValue_toDigits, String.ofList_toList]

end Change

theorem toList_reportOf_cons (c : Change) (changes : List Change) :
    (reportOf (c :: changes)).toList = c.line ++ '\n' :: (reportOf changes).toList := by
  unfold reportOf
  rw [List.map_cons, String.join_cons, String.toList_append, c.toList_written, List.append_assoc]
  rfl

/-- A report is read as the changes of which it is made. -/
theorem readChanges_reportOf {changes : List Change} (one : ∀ c ∈ changes, c.OnOneLine) :
    readChanges (reportOf changes) = some changes := by
  unfold readChanges
  induction changes with
  | nil => rfl
  | cons c changes ih =>
    rw [List.forall_mem_cons] at one
    rw [toList_reportOf_cons, newlinePieces_append, newlinePieces_line (Change.notMem_line one.1),
      List.singleton_append, List.dropLast_cons_of_ne_nil (newlinePieces_ne_nil _),
      List.mapM_cons, c.readChange_line, ih one.2]
    rfl

/-- Two rows of changes are written differently. -/
theorem reportOf_injective {changes others : List Change} (one : ∀ c ∈ changes, c.OnOneLine)
    (one' : ∀ c ∈ others, c.OnOneLine) (same : reportOf others = reportOf changes) :
    others = changes := by
  have read := readChanges_reportOf one'
  rw [same, readChanges_reportOf one] at read
  exact (Option.some.inj read).symm

end Apex
