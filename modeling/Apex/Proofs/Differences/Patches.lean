import Apex.Proofs.Differences.Changes
import Apex.Proofs.Writing.Cleanliness
import Mathlib.Data.List.DropRight

/-!
# Reports as patches

A report on two texts holds all that is needed to make the lines of the new text from those of the
old one, apart from empty lines at the end: these it does not tell from missing ones.
-/

namespace Apex

/-! ## Patching -/

/-- What the changes make of a line. A line of the new text takes its place; where there is only a
line of the old one, nothing is left. -/
def patchedLine (changes : List Change) (number : Nat) (line : String) : String :=
  let here := changes.filter (·.number == number)
  match here.find? (·.isNew) with
  | some c => c.text
  | none => if here.isEmpty then line else ""

/-- The highest line number of a row of changes. -/
def lastNumber (changes : List Change) : Nat := (changes.map (·.number)).foldr max 0

/-- What the changes make of a row of lines, which is filled up with empty lines as far as there are
changes. -/
def patchedLines (changes : List Change) (lines : List String) : List String :=
  (List.range (max lines.length (lastNumber changes))).map fun i =>
    patchedLine changes (i + 1) (lines.getD i "")

/-- The lines without those at the end that are empty. -/
def trimmedLines (lines : List String) : List String := lines.rdropWhile (·.isEmpty)

/-- The report is read as a row of changes and can be read as no other, and these changes make the
new lines of the old ones. -/
structure IsPatch (report : String) (changes : List Change) (old new : List String) : Prop where
  /-- The report is made of the changes. -/
  written : reportOf changes = report
  /-- The changes are read back. -/
  read : readChanges report = some changes
  /-- The report is not made of other changes. -/
  only : ∀ others : List Change, (∀ c ∈ others, c.OnOneLine) → reportOf others = report →
    others = changes
  /-- The changes lead from the old lines to the new ones. -/
  patched : trimmedLines (patchedLines changes old) = new

/-! ## Empty lines at the end -/

theorem getD_trimmedLines (lines : List String) (i : Nat) :
    (trimmedLines lines).getD i "" = lines.getD i "" := by
  unfold trimmedLines
  induction lines using List.reverseRecOn with
  | nil => rfl
  | append_singleton lines last ih =>
    rw [List.rdropWhile_concat]
    split
    · next empty =>
      obtain rfl : last = "" := by simpa using empty
      rw [ih]
      rcases Nat.lt_or_ge i lines.length with inside | behind
      · rw [List.getD_append _ _ _ _ inside]
      · rw [List.getD_append_right _ _ _ _ behind, List.getD_eq_default _ _ behind]
        cases i - lines.length <;> rfl
    · rfl

theorem length_trimmedLines_le {lines lines' : List String}
    (same : ∀ i, lines.getD i "" = lines'.getD i "") :
    (trimmedLines lines).length ≤ (trimmedLines lines').length := by
  by_contra longer
  rw [not_le] at longer
  have filled : trimmedLines lines ≠ [] := by
    rintro none
    rw [none] at longer
    exact Nat.not_lt_zero _ longer
  -- the last line that is left of the one row is missing in the other, so it is empty
  refine List.rdropWhile_last_not _ _ filled ?_
  have last := List.getLast_eq_getElem filled
  have at_last := same ((trimmedLines lines).length - 1)
  rw [← getD_trimmedLines lines, ← getD_trimmedLines lines',
    List.getD_eq_default (trimmedLines lines') _ (by omega),
    List.getD_eq_getElem _ _ (by omega), ← last] at at_last
  rw [String.isEmpty_iff]
  exact at_last

/-- Rows of lines that differ by empty lines at the end only. -/
theorem trimmedLines_eq_iff {lines lines' : List String} :
    trimmedLines lines = trimmedLines lines' ↔ ∀ i, lines.getD i "" = lines'.getD i "" := by
  constructor
  · intro same i
    rw [← getD_trimmedLines, same, getD_trimmedLines]
  · intro same
    have longer := length_trimmedLines_le same
    have shorter := length_trimmedLines_le fun i => (same i).symm
    refine List.ext_getElem (Nat.le_antisymm longer shorter) fun i inside inside' => ?_
    rw [← List.getD_eq_getElem _ "" inside, ← List.getD_eq_getElem _ "" inside',
      getD_trimmedLines, getD_trimmedLines, same]

/-! ## The changes of a report -/

/-- The changes of one line. -/
def lineChanges (number : Nat) (old new : String) : List Change :=
  if old = new then []
  else
    (if old.isEmpty then [] else [⟨false, number, old⟩]) ++
      if new.isEmpty then [] else [⟨true, number, new⟩]

/-- The changes that lead from one row of lines to another. -/
def changesOf (old new : List String) : List Change :=
  (List.range (max old.length new.length)).flatMap fun i =>
    lineChanges (i + 1) (old.getD i "") (new.getD i "")

theorem reportOf_append (changes others : List Change) :
    reportOf (changes ++ others) = reportOf changes ++ reportOf others := by
  unfold reportOf
  rw [List.map_append, String.join_append]

theorem reportOf_lineChanges (number : Nat) (old new : String) :
    reportOf (lineChanges number old new) = lineDifference number old new := by
  have shown (isNew : Bool) (line : String) :
      reportOf (if line.isEmpty then [] else [⟨isNew, number, line⟩]) =
        shownLine (if isNew then "+" else "-") number line := by
    unfold shownLine
    split
    · rfl
    · rw [reportOf, List.map_singleton]
      simp [Change.written, Change.sign]
  unfold lineChanges lineDifference
  split
  · rfl
  · rw [reportOf_append, shown, shown]
    rfl

theorem reportOf_flatMap {α : Type} (f : α → List Change) (xs : List α) :
    reportOf (xs.flatMap f) = String.join (xs.map fun x => reportOf (f x)) := by
  induction xs with
  | nil => rfl
  | cons x xs ih => rw [List.flatMap_cons, reportOf_append, ih, List.map_cons, String.join_cons]

theorem getD_paddedLines (count : Nat) (lines : List String) (i : Nat) :
    (paddedLines count lines).getD i "" = lines.getD i "" := by
  have same : trimmedLines (paddedLines count lines) = trimmedLines lines := by
    unfold paddedLines trimmedLines
    induction count - lines.length with
    | zero => rw [List.replicate_zero, List.append_nil]
    | succ n ih =>
      rw [List.replicate_succ', ← List.append_assoc, List.rdropWhile_concat_pos _ _ _ rfl, ih]
  exact trimmedLines_eq_iff.mp same i

theorem length_paddedLines {count : Nat} {lines : List String} (fits : lines.length ≤ count) :
    (paddedLines count lines).length = count := by
  rw [paddedLines, List.length_append, List.length_replicate]
  omega

/-- The differences between two texts, told line by line. -/
theorem textDifference_eq (old new : String) :
    textDifference old new = reportOf (changesOf (textLines old) (textLines new)) := by
  rw [changesOf, reportOf_flatMap, textDifference]
  refine congrArg String.join (List.ext_getElem ?_ fun i inside inside' => ?_)
  · simp [length_paddedLines]
  · simp only [List.getElem_map, List.getElem_zipIdx, List.getElem_zip, List.getElem_range,
      reportOf_lineChanges, Nat.zero_add]
    rw [← List.getD_eq_getElem _ "", ← List.getD_eq_getElem _ "", getD_paddedLines,
      getD_paddedLines]

/-! ### The changes of one line -/

/-- The changes of a line have its number and the texts of the old line and the new one. -/
theorem mem_lineChanges {number : Nat} {old new : String} {c : Change}
    (mem : c ∈ lineChanges number old new) :
    c.number = number ∧ (c.text = old ∨ c.text = new) := by
  have shown {isNew : Bool} {line : String}
      (mem : c ∈ if line.isEmpty then [] else [Change.mk isNew number line]) :
      c = ⟨isNew, number, line⟩ := by
    split at mem
    · cases mem
    · exact List.mem_singleton.mp mem
  unfold lineChanges at mem
  split at mem
  · cases mem
  · rcases List.mem_append.mp mem with before | after
    · rw [shown before]
      exact ⟨rfl, .inl rfl⟩
    · rw [shown after]
      exact ⟨rfl, .inr rfl⟩

theorem filter_lineChanges (number other : Nat) (old new : String) :
    (lineChanges number old new).filter (·.number == other) =
      if number = other then lineChanges number old new else [] := by
  split
  · next same =>
    exact List.filter_eq_self.mpr fun c mem =>
      beq_iff_eq.mpr ((mem_lineChanges mem).1.trans same)
  · next different =>
    refine List.filter_eq_nil_iff.mpr fun c mem found => different ?_
    exact (mem_lineChanges mem).1.symm.trans (beq_iff_eq.mp found)

/-- What changes on one line is said once. -/
theorem filter_changesOf (old new : List String) (i : Nat) :
    (changesOf old new).filter (·.number == i + 1) =
      lineChanges (i + 1) (old.getD i "") (new.getD i "") := by
  have upTo (count : Nat) : ((List.range count).flatMap fun j =>
      lineChanges (j + 1) (old.getD j "") (new.getD j "")).filter (·.number == i + 1) =
        if i < count then lineChanges (i + 1) (old.getD i "") (new.getD i "") else [] := by
    induction count with
    | zero => rfl
    | succ count ih =>
      rw [List.range_succ, List.flatMap_append, List.filter_append, ih, List.flatMap_singleton,
        filter_lineChanges]
      rcases Nat.lt_trichotomy i count with inside | rfl | behind
      · rw [if_pos inside, if_neg (by omega), if_pos (by omega), List.append_nil]
      · rw [if_neg (Nat.lt_irrefl i), if_pos rfl, if_pos (Nat.lt_succ_self i), List.nil_append]
      · rw [if_neg (by omega), if_neg (by omega), if_neg (by omega), List.append_nil]
  rw [changesOf, upTo]
  split
  · rfl
  · next behind =>
    rw [List.getD_eq_default _ _ (by omega), List.getD_eq_default _ _ (by omega)]
    rfl

/-- The changes of a line lead from the old line to the new one. -/
theorem patchedLine_changesOf (old new : List String) (i : Nat) :
    patchedLine (changesOf old new) (i + 1) (old.getD i "") = new.getD i "" := by
  rw [patchedLine, filter_changesOf]
  generalize old.getD i "" = before
  generalize new.getD i "" = after
  unfold lineChanges
  by_cases same : before = after
  · rw [if_pos same]
    exact same
  · rw [if_neg same]
    by_cases gone : after.isEmpty
    · -- the old line is not empty as well, so there is a line of the old text only
      have filled : before.isEmpty = false := by
        rw [Bool.eq_false_iff]
        intro none
        rw [String.isEmpty_iff] at none gone
        exact same (none.trans gone.symm)
      rw [if_pos gone, if_neg (by simp [filled])]
      exact (String.isEmpty_iff.mp gone).symm
    · rw [if_neg gone]
      cases before.isEmpty <;> rfl

theorem le_lastNumber {changes : List Change} {c : Change} (mem : c ∈ changes) :
    c.number ≤ lastNumber changes := by
  unfold lastNumber
  induction changes with
  | nil => cases mem
  | cons d changes ih =>
    rw [List.map_cons, List.foldr_cons]
    rcases List.mem_cons.mp mem with rfl | later
    · exact Nat.le_max_left _ _
    · exact (ih later).trans (Nat.le_max_right _ _)

theorem getD_patchedLines (changes : List Change) (lines : List String) (i : Nat) :
    (patchedLines changes lines).getD i "" =
      patchedLine changes (i + 1) (lines.getD i "") := by
  unfold patchedLines
  rcases Nat.lt_or_ge i (max lines.length (lastNumber changes)) with inside | behind
  · rw [List.getD_eq_getElem _ _ (by simpa using inside), List.getElem_map, List.getElem_range]
  · -- there is neither a line nor a change
    have none : changes.filter (·.number == i + 1) = [] := by
      refine List.filter_eq_nil_iff.mpr fun c mem here => ?_
      have last := le_lastNumber mem
      rw [beq_iff_eq] at here
      omega
    rw [List.getD_eq_default _ _ (by simpa using behind),
      List.getD_eq_default _ _ ((Nat.le_max_left _ _).trans behind), patchedLine, none]
    rfl

/-! ## Lines -/

theorem notMem_newlinePieces {cs piece : List Char} (mem : piece ∈ newlinePieces cs) :
    '\n' ∉ piece := by
  induction cs generalizing piece with
  | nil =>
    rw [List.mem_singleton.mp mem]
    exact List.not_mem_nil
  | cons c cs ih =>
    by_cases ends : c = '\n'
    · subst ends
      rw [newlinePieces_newline, List.mem_cons] at mem
      rcases mem with rfl | later
      · exact List.not_mem_nil
      · exact ih later
    · obtain ⟨first, later, pieces⟩ := List.exists_cons_of_ne_nil (newlinePieces_ne_nil cs)
      rw [pieces, List.forall_mem_cons] at ih
      rw [newlinePieces_cons ends, pieces, List.modifyHead_cons, List.mem_cons] at mem
      rcases mem with rfl | mem
      · exact List.not_mem_cons_of_ne_of_not_mem (Ne.symm ends) (ih.1)
      · exact ih.2 piece mem

theorem mem_withoutReturn {line : List Char} {c : Char} (mem : c ∈ withoutReturn line) :
    c ∈ line := by
  unfold withoutReturn at mem
  split at mem
  · exact List.mem_of_mem_dropLast mem
  · exact mem

theorem notMem_linesOfPieces {pieces : List (List Char)} (one : ∀ piece ∈ pieces, '\n' ∉ piece) :
    ∀ line ∈ linesOfPieces pieces, '\n' ∉ line := by
  induction pieces with
  | nil => exact List.forall_mem_nil _
  | cons piece later ih =>
    rw [List.forall_mem_cons] at one
    cases later with
    | nil =>
      rw [linesOfPieces]
      split
      · exact List.forall_mem_nil _
      · exact List.forall_mem_singleton.mpr one.1
    | cons next later =>
      rw [linesOfPieces]
      exact List.forall_mem_cons.mpr ⟨fun mem => one.1 (mem_withoutReturn mem), ih one.2⟩

/-- The lines of a text have no line ends in them. -/
theorem notMem_textLines {text line : String} (mem : line ∈ textLines text) :
    '\n' ∉ line.toList := by
  obtain ⟨letters, found, rfl⟩ := List.mem_map.mp mem
  rw [String.toList_ofList]
  exact notMem_linesOfPieces (fun piece => notMem_newlinePieces) letters found

theorem notMem_getD_textLines (text : String) (i : Nat) :
    '\n' ∉ ((textLines text).getD i "").toList := by
  rcases Nat.lt_or_ge i (textLines text).length with inside | behind
  · rw [List.getD_eq_getElem _ _ inside]
    exact notMem_textLines (List.getElem_mem inside)
  · rw [List.getD_eq_default _ _ behind]
    exact List.not_mem_nil

/-! ## Texts -/

theorem onOneLine_changesOf {old new : String} {c : Change}
    (mem : c ∈ changesOf (textLines old) (textLines new)) : c.OnOneLine := by
  obtain ⟨i, -, mem⟩ := List.mem_flatMap.mp mem
  unfold Change.OnOneLine
  rcases (mem_lineChanges mem).2 with text | text
  · rw [text]
    exact notMem_getD_textLines old i
  · rw [text]
    exact notMem_getD_textLines new i

/-- The differences between two texts lead from the lines of the one to those of the other. -/
theorem isPatch_textDifference (old new : String) :
    IsPatch (textDifference old new) (changesOf (textLines old) (textLines new)) (textLines old)
      (trimmedLines (textLines new)) := by
  have one : ∀ c ∈ changesOf (textLines old) (textLines new), c.OnOneLine :=
    fun c => onOneLine_changesOf
  have written := (textDifference_eq old new).symm
  refine ⟨written, ?_, fun others one' same => ?_, trimmedLines_eq_iff.mpr fun i => ?_⟩
  · rw [← written]
    exact readChanges_reportOf one
  · exact reportOf_injective one one' (same.trans written.symm)
  · rw [getD_patchedLines]
    exact patchedLine_changesOf (textLines old) (textLines new) i

/-! ## Formatted texts -/

/-- What stands behind the last line end of a text is a line of its own. -/
theorem newlinePieces_concat {c : Char} (inside : c ≠ '\n') (cs : List Char) :
    ∃ lines last, newlinePieces (cs ++ [c]) = lines ++ [last ++ [c]] := by
  induction cs with
  | nil => exact ⟨[], [], newlinePieces_cons inside []⟩
  | cons d cs ih =>
    obtain ⟨lines, last, pieces⟩ := ih
    by_cases ends : d = '\n'
    · subst ends
      exact ⟨[] :: lines, last, by rw [List.cons_append, newlinePieces_newline, pieces]; rfl⟩
    · rw [List.cons_append, newlinePieces_cons ends, pieces]
      cases lines with
      | nil => exact ⟨[], d :: last, rfl⟩
      | cons line lines => exact ⟨(d :: line) :: lines, last, rfl⟩

theorem linesOfPieces_concat (pieces : List (List Char)) :
    linesOfPieces (pieces ++ [[]]) = pieces.map withoutReturn := by
  induction pieces with
  | nil => rfl
  | cons piece pieces ih =>
    rw [List.map_cons, ← ih]
    cases pieces <;> rfl

/-- A text that ends in one line end has no empty line at its end. -/
theorem trimmedLines_textLines {text : String} {before : List Char} {c : Char}
    (ends : text.toList = before ++ [c, '\n']) (inside : isBreak c = false) :
    trimmedLines (textLines text) = textLines text := by
  rw [isBreak, Bool.or_eq_false_iff, beq_eq_false_iff_ne, beq_eq_false_iff_ne] at inside
  obtain ⟨lines, last, pieces⟩ := newlinePieces_concat inside.1 before
  have all : newlinePieces text.toList = (lines ++ [last ++ [c]]) ++ [[]] := by
    have row := newlinePieces_append (before ++ [c]) []
    rw [List.append_assoc] at row
    rw [ends, ← pieces]
    exact row
  have whole : withoutReturn (last ++ [c]) = last ++ [c] := by
    refine if_neg ?_
    rw [List.getLast?_concat]
    exact fun same => inside.2 (Option.some.inj same)
  have written : textLines text =
      (lines.map withoutReturn).map String.ofList ++ [String.ofList (last ++ [c])] := by
    rw [textLines, all, linesOfPieces_concat, List.map_append, List.map_append, List.map_singleton,
      List.map_singleton, whole]
  rw [written]
  refine List.rdropWhile_concat_neg _ _ _ fun empty => ?_
  have none := congrArg String.toList (String.isEmpty_iff.mp empty)
  rw [String.toList_ofList] at none
  exact List.append_ne_nil_of_right_ne_nil _ (List.cons_ne_nil _ _) none

/-- The text of an accepted program has no empty line at its end. -/
theorem CompilationUnit.trimmedLines_text {source : String} {unit : CompilationUnit}
    (accepted : parseSource source = .ok unit) (settings : LayoutSettings) :
    trimmedLines (textLines (unit.text settings)) = textLines (unit.text settings) := by
  have written : (unit.text settings).toList = put settings 0 true unit.marks :=
    toList_renderMarks settings unit.marks
  rcases CompilationUnit.fits_of_parseSource accepted with fits | ⟨-, marks⟩
  · obtain ⟨before, c, ends, inside⟩ := fits.ends settings [] nofun
    exact trimmedLines_textLines (written.trans ends) inside
  · rw [marks] at written
    rw [String.toList_eq_nil_iff.mp written]
    rfl

theorem formatSource_eq {source : String} {unit : CompilationUnit}
    (accepted : parseSource source = .ok unit) (settings : LayoutSettings) :
    formatSource source settings = .ok (unit.text settings) := by
  unfold formatSource
  rw [accepted]
  rfl

theorem formatDifference_eq {source formatted : String}
    (formats : formatSource source {} = .ok formatted) :
    formatDifference source =
      .ok (if source = formatted then none else some (textDifference source formatted)) := by
  unfold formatDifference
  rw [formats]
  rfl

/-- The report on an accepted source is missing exactly if the source is formatted already.
Otherwise it is made of changes that can be read back in one way only and lead from the lines of the
source to those of the formatted text. -/
theorem formatDifference_isPatch {source : String} {unit : CompilationUnit}
    (accepted : parseSource source = .ok unit) :
    ∃ formatted answer, formatSource source {} = .ok formatted ∧
      formatDifference source = .ok answer ∧
      (answer = none ↔ isFormatted source = .ok true) ∧
      ∀ report, answer = some report →
        ∃ changes, IsPatch report changes (textLines source) (textLines formatted) := by
  have formats := formatSource_eq accepted {}
  have checks : isFormatted source = .ok (source == unit.text {}) := by
    unfold isFormatted
    rw [formats]
    rfl
  refine ⟨_, _, formats, formatDifference_eq formats, ?_, fun report shown => ?_⟩
  · rw [checks, Except.ok.injEq, beq_iff_eq]
    split
    · next same => exact ⟨fun _ => same, fun _ => rfl⟩
    · next other => exact ⟨nofun, fun same => absurd same other⟩
  · split at shown
    · cases shown
    · have patch := isPatch_textDifference source (unit.text {})
      rw [CompilationUnit.trimmedLines_text accepted, Option.some.inj shown] at patch
      exact ⟨_, patch⟩

/-- A class with a note that looks like a change, on lines that are not those of its text. -/
def barredNote : String := "@A('   1 | b')\n\nclass\n B \x7b\n\n\n\x7d"

/-- The report on `barredNote` fills an empty line and empties three others. -/
def barredNoteReport : String :=
  "+   2 | class B \x7b\x7d\n-   3 | class\n-   4 |  B \x7b\n-   7 | \x7d\n"

/-- The report is there, and it is made of changes that lead to the formatted text. -/
theorem formatDifference_isPatch_barredNote :
    ∃ unit formatted changes, parseSource barredNote = .ok unit ∧
      formatSource barredNote {} = .ok formatted ∧ isFormatted barredNote = .ok false ∧
      formatDifference barredNote = .ok (some barredNoteReport) ∧
      IsPatch barredNoteReport changes (textLines barredNote) (textLines formatted) := by
  have found : (parseSource barredNote).toBool = true := by decide +kernel
  have shown : isFormatted barredNote = .ok false ∧
      formatDifference barredNote = .ok (some barredNoteReport) := by
    decide +kernel
  obtain ⟨unit, accepted⟩ := exists_eq_ok found
  obtain ⟨formatted, answer, formats, answers, -, patch⟩ := formatDifference_isPatch accepted
  rw [shown.2] at answers
  obtain ⟨changes, isPatch⟩ := patch _ (Except.ok.inj answers).symm
  exact ⟨unit, formatted, changes, accepted, formats, shown.1, shown.2, isPatch⟩

/-! ## Differences that are not shown -/

theorem lineChanges_eq_nil_iff {number : Nat} {old new : String} :
    lineChanges number old new = [] ↔ old = new := by
  unfold lineChanges
  split
  · next same => exact ⟨fun _ => same, fun _ => rfl⟩
  · next different =>
    refine ⟨fun none => ?_, fun same => absurd same different⟩
    obtain ⟨before, after⟩ := List.append_eq_nil_iff.mp none
    have gone : old.isEmpty = true := by
      by_contra filled
      rw [if_neg filled] at before
      cases before
    have gone' : new.isEmpty = true := by
      by_contra filled
      rw [if_neg filled] at after
      cases after
    rw [String.isEmpty_iff] at gone gone'
    exact gone.trans gone'.symm

/-- There are no changes exactly if the lines differ at most by empty ones at the end. -/
theorem changesOf_eq_nil_iff {old new : List String} :
    changesOf old new = [] ↔ trimmedLines old = trimmedLines new := by
  rw [trimmedLines_eq_iff]
  constructor
  · intro none i
    have here := filter_changesOf old new i
    rw [none, List.filter_nil, eq_comm, lineChanges_eq_nil_iff] at here
    exact here
  · intro same
    exact List.flatMap_eq_nil_iff.mpr fun i _ => lineChanges_eq_nil_iff.mpr (same i)

theorem textDifference_eq_empty_iff {old new : String} :
    textDifference old new = "" ↔ trimmedLines (textLines old) = trimmedLines (textLines new) := by
  rw [← changesOf_eq_nil_iff, textDifference_eq]
  constructor
  · intro nothing
    have none : ∀ c ∈ ([] : List Change), c.OnOneLine := List.forall_mem_nil _
    exact reportOf_injective none (fun c => onOneLine_changesOf) nothing
  · intro none
    rw [none]
    rfl

/-- There is a report on each source that is not formatted. It shows something exactly if the lines
of the source are not those of the formatted text, apart from empty ones at the end. -/
theorem formatDifference_shows {source : String} {unit : CompilationUnit}
    (accepted : parseSource source = .ok unit) :
    ∃ formatted, formatSource source {} = .ok formatted ∧
      (source ≠ formatted → ∃ report, formatDifference source = .ok (some report) ∧
        (report ≠ "" ↔ trimmedLines (textLines source) ≠ textLines formatted)) := by
  have formats := formatSource_eq accepted {}
  refine ⟨_, formats, fun other => ⟨textDifference source (unit.text {}), ?_, ?_⟩⟩
  · rw [formatDifference_eq formats, if_neg other]
  · have trimmed := CompilationUnit.trimmedLines_text accepted {}
    rw [Ne, textDifference_eq_empty_iff, trimmed]

/-- A class and its name on two lines, without a last line end: there is a report on it, and it
shows something. -/
theorem formatDifference_shows_class :
    ∃ unit formatted, parseSource "class\nA \x7b\x7d" = .ok unit ∧
      formatSource "class\nA \x7b\x7d" {} = .ok formatted ∧ "class\nA \x7b\x7d" ≠ formatted ∧
      ∃ report, formatDifference "class\nA \x7b\x7d" = .ok (some report) ∧ report ≠ "" ∧
        trimmedLines (textLines "class\nA \x7b\x7d") ≠ textLines formatted := by
  have found : (parseSource "class\nA \x7b\x7d").toBool = true := by decide +kernel
  have formats : formatSource "class\nA \x7b\x7d" {} = .ok "class A \x7b\x7d\n" := by decide +kernel
  obtain ⟨unit, accepted⟩ := exists_eq_ok found
  obtain ⟨formatted, formats', shown⟩ := formatDifference_shows accepted
  rw [formats] at formats'
  obtain rfl := Except.ok.inj formats'
  have other : "class\nA \x7b\x7d" ≠ "class A \x7b\x7d\n" := by decide
  obtain ⟨report, reports, visible⟩ := shown other
  have lines : trimmedLines (textLines "class\nA \x7b\x7d") ≠ textLines "class A \x7b\x7d\n" := by
    decide +kernel
  exact ⟨unit, _, accepted, formats, other, report, reports, visible.mpr lines, lines⟩

/-- A source may differ from its formatted form without any change to be seen. -/
theorem not_formatDifference_ne_empty :
    ¬∀ source unit, parseSource source = .ok unit → isFormatted source = .ok false →
      ∃ report, formatDifference source = .ok (some report) ∧ report ≠ "" := by
  intro shown
  have nothing : isFormatted "class A \x7b\x7d" = .ok false ∧
      formatDifference "class A \x7b\x7d" = .ok (some "") := by
    decide +kernel
  have found : (parseSource "class A \x7b\x7d").toBool = true := by decide +kernel
  obtain ⟨unit, accepted⟩ := exists_eq_ok found
  obtain ⟨report, reports, some⟩ := shown _ unit accepted nothing.1
  rw [nothing.2] at reports
  exact some (Option.some.inj (Except.ok.inj reports)).symm

end Apex
