import Apex.Layout.Page
import Apex.Proofs.Writing.Texts

/-!
# Pages as text

What the marks of a page write depends on the marks behind them only by where a line ends. So a row
of marks spells forms if it does so on every level of indentation, at the start of a line and
within one: `Spelled`. Between texts there are only blanks and ends of lines.
-/

namespace Apex

open Form

/-! ## What marks write -/

/-- What marks write on a page: on a level of indentation, and at the start of a line or not. -/
def put (settings : LayoutSettings) (level : Nat) (start : Bool) : List Mark → List Char
  | [] => if start then [] else ['\n']
  | .text text :: marks =>
    if text.isEmpty then put settings level start marks
    else (if start then List.replicate (level * settings.indentWidth) ' ' else []) ++ text.toList ++
      put settings level false marks
  | .newline :: marks => '\n' :: put settings level true marks
  | .indent :: marks => put settings (level + 1) start marks
  | .dedent :: marks => put settings (level - 1) start marks
  | .gap :: marks =>
    (if start then [] else ['\n']) ++ List.replicate settings.memberGap '\n' ++
      put settings level true marks

namespace Page

theorem endLines_eq (p : Page) (n : Nat) (start : p.atLineStart = true) :
    n.repeat endLine p =
      ⟨p.output ++ String.ofList (List.replicate n '\n'), p.level, true⟩ := by
  induction n with
  | zero =>
    obtain ⟨output, level, atLineStart⟩ := p
    cases start
    simp [Nat.repeat]
  | succ n ih =>
    rw [Nat.repeat, ih, endLine]
    simp [String.push_eq_append, String.append_assoc, List.replicate_succ', String.ofList_append]

theorem toList_mark (settings : LayoutSettings) (marks : List Mark) (p : Page) :
    ((marks.foldl (mark settings) p).endBegunLine.output).toList =
      p.output.toList ++ put settings p.level p.atLineStart marks := by
  induction marks generalizing p with
  | nil =>
    obtain ⟨output, level, atLineStart⟩ := p
    cases atLineStart <;> simp [endBegunLine, endLine, put]
  | cons m marks ih =>
    rw [List.foldl_cons, ih]
    obtain ⟨output, level, atLineStart⟩ := p
    cases m with
    | text text =>
      simp only [mark, write, put]
      split
      · rfl
      · cases atLineStart <;> simp
    | newline => simp [mark, endLine, put]
    | indent | dedent => simp [mark, put]
    | gap =>
      have begun : (endBegunLine ⟨output, level, atLineStart⟩).atLineStart = true := by
        cases atLineStart <;> rfl
      rw [mark, endLines_eq _ _ begun]
      cases atLineStart <;> simp [endBegunLine, endLine, put]

end Page

/-- The text of marks. -/
theorem toList_renderMarks (settings : LayoutSettings) (marks : List Mark) :
    (renderMarks settings marks).toList = put settings 0 true marks := by
  rw [renderMarks, Page.toList_mark]
  rfl

/-! ## Marks that spell forms -/

/-- On every level, and wherever the line starts, the marks write a text that spells the forms. -/
def Spelled (settings : LayoutSettings) (forms : List Form) (marks : List Mark) : Prop :=
  ∀ level start, Spells forms (put settings level start marks)

/-- What the marks write within a line may follow an operand. -/
def Open (settings : LayoutSettings) (marks : List Mark) : Prop :=
  ∀ level, Loose (put settings level false marks)

section

variable {settings : LayoutSettings} {forms others : List Form} {marks : List Mark} {text : String}

theorem isEmpty_eq_false (some : text.toList ≠ []) : text.isEmpty = false := by
  by_contra empty
  rw [Bool.not_eq_false, String.isEmpty_iff] at empty
  subst empty
  exact some rfl

theorem put_text (some : text.toList ≠ []) (level : Nat) :
    put settings level false (.text text :: marks) =
      text.toList ++ put settings level false marks := by
  rw [put, isEmpty_eq_false some, if_neg (by decide), if_neg (by decide), List.nil_append]

/-! ### What is open -/

theorem Open.of_text {c : Char} {cs : List Char} (spelled : text.toList = c :: cs)
    (loose : isLoose c = true) : Open settings (.text text :: marks) := by
  intro level
  rw [put_text (by simp [spelled]), spelled]
  exact .cons loose _

/-- Whether a text may follow an operand, whatever comes behind the text. -/
def isOpen (text : String) : Bool := (text.toList.head?.map isLoose).getD false

theorem Open.plain (h : isOpen text = true) : Open settings (.text text :: marks) := by
  unfold isOpen at h
  cases spelled : text.toList with
  | nil =>
    rw [spelled] at h
    cases h
  | cons c cs =>
    rw [spelled] at h
    exact .of_text spelled h

theorem Open.newline : Open settings (.newline :: marks) := fun _ => .cons (by decide) _

theorem Open.gap : Open settings (.gap :: marks) := fun _ => .cons (by decide) _

theorem Open.nil : Open settings [] := fun _ => .cons (by decide) _

/-- A text that may follow an operand, or none at all. -/
theorem Trails.opens (h : Trails forms text.toList) (follows : Open settings marks) :
    Open settings (.text text :: marks) := by
  intro level
  by_cases some : text.toList = []
  · rw [put, if_pos (by simpa using some)]
    exact follows level
  · rw [put_text some]
    exact h.loose (follows level)

/-- A point before a word. -/
theorem Open.dot {name : String} (word : IsWord name) :
    Open settings (.text "." :: .text name :: marks) := by
  intro level
  obtain ⟨c, cs, spelled, letter, -⟩ := word
  rw [put_text (by decide), put_text (by simp [spelled]), spelled]
  refine .dot (.cons ?_ _)
  by_contra digit
  exact not_isWordStart_of_isDigit (by simpa using digit) letter

/-! ### What is spelled -/

theorem spells_spaces {cs : List Char} (n : Nat) (h : Spells forms cs) :
    Spells forms (List.replicate n ' ' ++ cs) := by
  induction n with
  | zero => exact h
  | succ n ih => exact .gap rfl ih

theorem spells_lines {cs : List Char} (n : Nat) (h : Spells forms cs) :
    Spells forms (List.replicate n '\n' ++ cs) := by
  induction n with
  | zero => exact h
  | succ n ih => exact .gap rfl ih

theorem Spelled.nil : Spelled settings [] [] := by
  intro level start
  cases start
  · exact .gap rfl .nil
  · exact .nil

theorem Spelled.newline (h : Spelled settings forms marks) :
    Spelled settings forms (.newline :: marks) := fun level _ => .gap rfl (h level true)

theorem Spelled.indent (h : Spelled settings forms marks) :
    Spelled settings forms (.indent :: marks) := fun level start => h (level + 1) start

theorem Spelled.dedent (h : Spelled settings forms marks) :
    Spelled settings forms (.dedent :: marks) := fun level start => h (level - 1) start

theorem Spelled.gap (h : Spelled settings forms marks) :
    Spelled settings forms (.gap :: marks) := by
  intro level start
  have behind := spells_lines settings.memberGap (h level true)
  rw [put, List.append_assoc]
  cases start
  · exact .gap rfl behind
  · exact behind

/-- A text, if it spells forms together with what follows it on the line. -/
theorem Spelled.write (some : text.toList ≠ [])
    (h : ∀ level, Spells forms (text.toList ++ put settings level false marks)) :
    Spelled settings forms (.text text :: marks) := by
  intro level start
  rw [put, isEmpty_eq_false some, if_neg (by decide), List.append_assoc]
  cases start
  · exact h level
  · exact spells_spaces _ (h level)

/-- A text before what may follow an operand. -/
theorem Spelled.writes (h : Writes forms text.toList) (some : text.toList ≠ [])
    (follows : Open settings marks) (rest : Spelled settings others marks) :
    Spelled settings (forms ++ others) (.text text :: marks) :=
  .write some fun level => h (follows level) (rest level false)

/-- A text that may be empty, before what may follow an operand. -/
theorem Spelled.perhaps (h : Writes forms text.toList) (follows : Open settings marks)
    (rest : Spelled settings others marks) : Spelled settings (forms ++ others) (.text text :: marks) := by
  by_cases some : text.toList = []
  · obtain rfl : forms = [] := by
      by_contra token
      exact h.ne_nil token some
    intro level start
    rw [put, if_pos (by simpa using some)]
    exact rest level start
  · exact .writes h some follows rest

theorem Spelled.word (h : (Form.word text).Sayable) (follows : Open settings marks)
    (rest : Spelled settings others marks) :
    Spelled settings (Form.word text :: others) (.text text :: marks) := by
  obtain ⟨c, cs, spelled, -⟩ := h.1
  exact .writes (writes_word h) (by simp [spelled]) follows rest

/-- Whether a text is made of the parts, which are read one by one. -/
def Fixed.isWritten (parts : List Fixed) (text : String) : Bool :=
  text.toList == chars parts && !text.toList.isEmpty && isReadable parts

/-- A text that is the same for every tree, before what may follow an operand. -/
theorem Spelled.fixedBefore (parts : List Fixed) (written : Fixed.isWritten parts text = true)
    (follows : Open settings marks) (rest : Spelled settings others marks) :
    Spelled settings (Fixed.forms parts ++ others) (.text text :: marks) := by
  simp only [Fixed.isWritten, Bool.and_eq_true, beq_iff_eq, Bool.not_eq_true',
    List.isEmpty_eq_false_iff] at written
  obtain ⟨⟨same, some⟩, readable⟩ := written
  exact .writes (by rw [same]; exact .fixed readable) some follows rest

/-- A text that is the same for every tree and ends in no word. -/
theorem Spelled.fixed {t : String} (parts : List Fixed)
    (written : (Fixed.isWritten parts t && !Fixed.endsInWord parts) = true)
    (rest : Spelled settings others marks) :
    Spelled settings (Fixed.forms parts ++ others) (.text t :: marks) := by
  simp only [Fixed.isWritten, Bool.and_eq_true, beq_iff_eq, Bool.not_eq_true',
    List.isEmpty_eq_false_iff] at written
  obtain ⟨⟨⟨same, some⟩, readable⟩, ends⟩ := written
  refine .write some fun level => ?_
  rw [same]
  exact Fixed.spells readable (fun word => by rw [ends] at word; cases word) (rest level false)

/-- A blank by itself. -/
theorem Spelled.blank (rest : Spelled settings others marks) :
    Spelled settings others (.text " " :: marks) :=
  .fixed [.blank] (by decide) rest

/-- An operator between operands, in its blanks. -/
theorem Spelled.operator {o : Operator} (rest : Spelled settings others marks) :
    Spelled settings (.operator o :: others)
      (.text " " :: .text o.spelling :: .text " " :: marks) := by
  have some : o.spelling.toList ≠ [] := by cases o <;> decide
  refine .fixed [.blank] (by decide) (.write some fun level => ?_)
  rw [put_text (by decide)]
  exact .operator (rest level false)

/-- A bracket that opens no query. -/
theorem Spelled.bracket (noQuery : ∀ level, queryAhead? (put settings level false marks) = none)
    (rest : Spelled settings others marks) :
    Spelled settings (mark .openBracket :: others) (.text "[" :: marks) :=
  .write (by decide) fun level => (tells_bracket (noQuery level)).spells (rest level false)

end

end Apex
