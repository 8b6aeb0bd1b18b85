import Apex.Proofs.Forms.Trees
import Apex.Proofs.Writing.Lines

/-!
# Margins of a page

The raw text of a query may stretch over lines, which come out as they are. Everything else on a
page is laid out: no line ends in a space, and the spaces at its beginning are whole steps of
indentation. Marks whose texts fit on such lines are described by `Fits`, which follows the end of
the line that is being written and the level of indentation.
-/

namespace Apex

/-! ## Raw texts -/

/-- The text between the brackets of a query. -/
def Form.raw? : Form → Option (List Char)
  | .kind (.soql query) | .kind (.sosl query) => some query.text.toList
  | _ => none

/-- The texts between the brackets of the queries, in their order. -/
def Form.raws (forms : List Form) : List (List Char) := forms.filterMap Form.raw?

/-- The raw texts of the queries in a program, in their order. -/
def CompilationUnit.raws (u : CompilationUnit) : List (List Char) := Form.raws u.forms

/-- The text is `outside` with the raw texts put in one after another, each between brackets that
have nothing between them. -/
inductive Woven : (raws : List (List Char)) → (outside text : List Char) → Prop where
  | nil : Woven [] [] []
  | char {raws : List (List Char)} {outside text : List Char} (c : Char)
    (later : Woven raws outside text) : Woven raws (c :: outside) (c :: text)
  | raw {raws : List (List Char)} {outside text : List Char} (raw : List Char)
    (later : Woven raws outside text) :
    Woven (raw :: raws) ('[' :: ']' :: outside) ('[' :: (raw ++ ']' :: text))

namespace Woven

variable {raws raws' : List (List Char)} {outside outside' text text' : List Char}

/-- A text without raw texts. -/
theorem refl (text : List Char) : Woven [] text text := by
  induction text with
  | nil => exact .nil
  | cons c text ih => exact .char c ih

theorem append (h : Woven raws outside text) (h' : Woven raws' outside' text') :
    Woven (raws ++ raws') (outside ++ outside') (text ++ text') := by
  induction h with
  | nil => exact h'
  | char c later ih => exact .char c ih
  | raw raw later ih => simpa only [List.cons_append, List.append_assoc] using ih.raw raw

theorem head?_eq (h : Woven raws outside text) : text.head? = outside.head? := by
  cases h <;> rfl

theorem getLast?_eq (h : Woven raws outside text) : text.getLast? = outside.getLast? := by
  induction h with
  | nil => rfl
  | char c later ih => rw [List.getLast?_cons, List.getLast?_cons, ih]
  | raw raw later ih =>
    rw [List.getLast?_cons, List.getLast?_append, List.getLast?_cons, List.getLast?_cons,
      List.getLast?_cons, ih]
    rfl

end Woven

/-! ## Texts within a line -/

/-- Whether a character ends a line, or belongs to a line end. -/
def isBreak (c : Char) : Bool := c == '\n' || c == '\r'

/-- Apart from its raw texts, the text stands within a line. -/
def Inline (raws : List (List Char)) (text : List Char) : Prop :=
  ∃ outside, Woven raws outside text ∧ ∀ c ∈ outside, isBreak c = false

/-- The text is not empty, and neither begins nor ends with a space. -/
def isTrimmed (text : List Char) : Bool :=
  text.head?.any (· != ' ') && text.getLast?.any (· != ' ')

/-- The text stands within a line apart from its raw texts, and the line may begin and end with
it. -/
def Tight (raws : List (List Char)) (text : List Char) : Prop :=
  Inline raws text ∧ isTrimmed text = true

namespace Inline

variable {raws raws' : List (List Char)} {text text' : List Char}

theorem plain (h : ∀ c ∈ text, isBreak c = false) : Inline [] text := ⟨text, .refl text, h⟩

/-- A text that is the same for every tree. -/
theorem fixed (h : text.all (!isBreak ·) = true) : Inline [] text := by
  refine plain fun c mem => ?_
  have free := List.all_eq_true.mp h c mem
  rwa [Bool.not_eq_true'] at free

theorem append (h : Inline raws text) (h' : Inline raws' text') :
    Inline (raws ++ raws') (text ++ text') := by
  obtain ⟨outside, woven, free⟩ := h
  obtain ⟨outside', woven', free'⟩ := h'
  exact ⟨outside ++ outside', woven.append woven', List.forall_mem_append.mpr ⟨free, free'⟩⟩

end Inline

theorem isTrimmed_append {text text' : List Char} (begins : text.head?.any (· != ' ') = true)
    (ends : text'.getLast?.any (· != ' ') = true) : isTrimmed (text ++ text') = true := by
  unfold isTrimmed
  rw [Bool.and_eq_true, List.head?_append, List.getLast?_append]
  cases first : text.head? with
  | none =>
    rw [first] at begins
    cases begins
  | some c =>
    cases last : text'.getLast? with
    | none =>
      rw [last] at ends
      cases ends
    | some d =>
      rw [first] at begins
      rw [last] at ends
      exact ⟨begins, ends⟩

namespace Tight

variable {raws raws' raws'' : List (List Char)} {text text' text'' : List Char}

theorem begins (h : Tight raws text) : text.head?.any (· != ' ') = true :=
  (Bool.and_eq_true_iff.mp h.2).1

theorem ends (h : Tight raws text) : text.getLast?.any (· != ' ') = true :=
  (Bool.and_eq_true_iff.mp h.2).2

theorem ne_nil (h : Tight raws text) : text ≠ [] := by
  rintro rfl
  exact nomatch h.begins

theorem append (h : Tight raws text) (h' : Tight raws' text') :
    Tight (raws ++ raws') (text ++ text') :=
  ⟨h.1.append h'.1, isTrimmed_append h.begins h'.ends⟩

/-- Something that stands within a line, between two texts with which a line may begin or end. -/
theorem around (h : Tight raws text) (middle : Inline raws' text') (h' : Tight raws'' text'') :
    Tight (raws ++ raws' ++ raws'') (text ++ text' ++ text'') := by
  refine ⟨(h.1.append middle).append h'.1, ?_⟩
  rw [List.append_assoc]
  refine isTrimmed_append h.begins ?_
  have last := h'.ends
  cases found : text''.getLast? with
  | none =>
    rw [found] at last
    cases last
  | some c =>
    rw [found] at last
    rw [List.getLast?_append, found]
    exact last

/-- A text that is the same for every tree. -/
theorem fixed (h : (text.all (!isBreak ·) && isTrimmed text) = true) : Tight [] text := by
  rw [Bool.and_eq_true] at h
  exact ⟨.fixed h.1, h.2⟩

/-- A text without spaces. -/
theorem solid (some : text ≠ []) (h : ∀ c ∈ text, isBreak c = false ∧ c ≠ ' ') :
    Tight [] text := by
  refine ⟨.plain fun c mem => (h c mem).1, ?_⟩
  unfold isTrimmed
  rw [List.head?_eq_some_head some, List.getLast?_eq_some_getLast some, Bool.and_eq_true]
  have first := (h _ (List.head_mem some)).2
  have last := (h _ (List.getLast_mem some)).2
  exact ⟨bne_iff_ne.mpr first, bne_iff_ne.mpr last⟩

end Tight

/-! ## Marks on a page -/

/-- What the line that is being written ends in. -/
inductive LineEnd where
  /-- There is nothing on it. -/
  | fresh
  /-- It ends in a space. -/
  | blank
  /-- It ends in something else. -/
  | solid
deriving DecidableEq

/-- Whether there is nothing on the line. -/
def LineEnd.isFresh : LineEnd → Bool
  | .fresh => true
  | _ => false

/-- What a line ends in behind a text. -/
def lineEnd (text : List Char) : LineEnd := if text.getLast? = some ' ' then .blank else .solid

/-- The marks can be written behind what the line ends in, on a level of indentation. No line is
ended behind a space and none begins with one. On the way down no mark goes below level zero, and
all ends there. The queries in the marks have the raw texts. -/
inductive Fits : LineEnd → (level : Nat) → (raws : List (List Char)) → List Mark → Prop where
  | done : Fits .solid 0 [] []
  | nothing {e : LineEnd} {level : Nat} {raws : List (List Char)} {marks : List Mark}
    (later : Fits e level raws marks) : Fits e level raws (.text "" :: marks)
  | write {e : LineEnd} {level : Nat} {raws raws' : List (List Char)} {marks : List Mark}
    {text : String} {outside : List Char} (woven : Woven raws outside text.toList)
    (free : ∀ c ∈ outside, isBreak c = false) (filled : outside ≠ [])
    (begins : e = .fresh → outside.head? ≠ some ' ')
    (later : Fits (lineEnd outside) level raws' marks) :
    Fits e level (raws ++ raws') (.text text :: marks)
  | newline {level : Nat} {raws : List (List Char)} {marks : List Mark}
    (later : Fits .fresh level raws marks) : Fits .solid level raws (.newline :: marks)
  | gap {level : Nat} {raws : List (List Char)} {marks : List Mark}
    (later : Fits .fresh level raws marks) : Fits .solid level raws (.gap :: marks)
  | indent {e : LineEnd} {level : Nat} {raws : List (List Char)} {marks : List Mark}
    (later : Fits e (level + 1) raws marks) : Fits e level raws (.indent :: marks)
  | dedent {e : LineEnd} {level : Nat} {raws : List (List Char)} {marks : List Mark}
    (later : Fits e level raws marks) : Fits e (level + 1) raws (.dedent :: marks)

/-! ## Lines -/

/-- No space at the end, and spaces for whole steps of indentation at the beginning. -/
def IsClean (width : Nat) (line : List Char) : Prop :=
  line.getLast? ≠ some ' ' ∧ width ∣ (line.takeWhile (· == ' ')).length

/-- A line that has been begun: an indentation, and something behind it. -/
def Margined (width : Nat) (begun : List Char) : Prop :=
  '\n' ∉ begun ∧
    ∃ steps c rest, begun = List.replicate (steps * width) ' ' ++ c :: rest ∧ c ≠ ' '

/-- The line has been written up to its end. -/
def LineEnd.Ends (width : Nat) (begun : List Char) : LineEnd → Prop
  | .fresh => begun = []
  | .blank => Margined width begun
  | .solid => Margined width begun ∧ begun.getLast? ≠ some ' '

/-- The spaces that are written before a text. -/
def LineEnd.margin (width level : Nat) : LineEnd → List Char
  | .fresh => List.replicate (level * width) ' '
  | _ => []

theorem isClean_nil (width : Nat) : IsClean width [] := ⟨nofun, ⟨0, rfl⟩⟩

theorem Margined.isClean {width : Nat} {line : List Char} (h : Margined width line)
    (ends : line.getLast? ≠ some ' ') : IsClean width line := by
  obtain ⟨-, steps, c, rest, rfl, other⟩ := h
  refine ⟨ends, ?_⟩
  have stop : (c :: rest).takeWhile (· == ' ') = [] :=
    List.takeWhile_cons_of_neg (by simpa using other)
  have spaces : ∀ d ∈ List.replicate (steps * width) ' ', (d == ' ') = true :=
    fun d mem => beq_iff_eq.mpr (List.eq_of_mem_replicate mem)
  rw [List.takeWhile_append_of_pos spaces, stop, List.append_nil, List.length_replicate]
  exact Nat.dvd_mul_left width steps

theorem newlinePieces_line {line : List Char} (one : '\n' ∉ line) :
    newlinePieces line = [line] := by
  induction line with
  | nil => rfl
  | cons c line ih =>
    rw [List.mem_cons, not_or] at one
    rw [newlinePieces_cons (Ne.symm one.1), ih one.2]
    rfl

/-- The lines of a text with blank lines before it. -/
theorem forall_newlinePieces_blank {p : List Char → Prop} {cs : List Char} (empty : p [])
    (h : ∀ line ∈ newlinePieces cs, p line) (n : Nat) :
    ∀ line ∈ newlinePieces (List.replicate n '\n' ++ cs), p line := by
  induction n with
  | zero => exact h
  | succ n ih =>
    rw [List.replicate_succ, List.cons_append, newlinePieces_newline]
    exact List.forall_mem_cons.mpr ⟨empty, ih⟩

theorem LineEnd.Ends.write {width : Nat} {begun outside : List Char} {e : LineEnd}
    (h : e.Ends width begun) (free : ∀ c ∈ outside, isBreak c = false) (filled : outside ≠ [])
    (begins : e = .fresh → outside.head? ≠ some ' ') (level : Nat) :
    (lineEnd outside).Ends width (begun ++ (e.margin width level ++ outside)) := by
  have lines : '\n' ∉ outside := fun mem => nomatch free _ mem
  have longer (old : Margined width begun) : Margined width (begun ++ outside) := by
    obtain ⟨one, steps, c, rest, rfl, other⟩ := old
    refine ⟨List.not_mem_append one lines, steps, c, rest ++ outside, ?_, other⟩
    rw [List.append_assoc, List.cons_append]
  have margined : Margined width (begun ++ (e.margin width level ++ outside)) := by
    cases e with
    | fresh =>
      obtain rfl : begun = [] := h
      obtain ⟨c, rest, rfl⟩ := List.exists_cons_of_ne_nil filled
      have other : c ≠ ' ' := by simpa using begins rfl
      have margin : '\n' ∉ List.replicate (level * width) ' ' :=
        fun mem => nomatch List.eq_of_mem_replicate mem
      rw [List.nil_append]
      exact ⟨List.not_mem_append margin lines, level, c, rest, rfl, other⟩
    | blank => exact longer h
    | solid => exact longer h.1
  unfold lineEnd
  split
  · exact margined
  · next other =>
    refine ⟨margined, ?_⟩
    rwa [← List.append_assoc, List.getLast?_append_of_ne_nil _ filled]

theorem isFresh_lineEnd (text : List Char) : (lineEnd text).isFresh = false := by
  unfold lineEnd
  split <;> rfl

/-! ## What is written -/

theorem put_write (settings : LayoutSettings) (e : LineEnd) (level : Nat) {text : String}
    (filled : text.toList ≠ []) (marks : List Mark) :
    put settings level e.isFresh (.text text :: marks) =
      e.margin settings.indentWidth level ++ text.toList ++ put settings level false marks := by
  rw [put, isEmpty_eq_false filled, if_neg (by decide)]
  cases e <;> rfl

theorem Woven.ne_nil {raws : List (List Char)} {outside text : List Char}
    (h : Woven raws outside text) (filled : outside ≠ []) : text ≠ [] := by
  cases h with
  | nil => exact filled
  | char | raw => exact List.cons_ne_nil _ _

namespace Page

theorem level_text (settings : LayoutSettings) (p : Page) (text : String) :
    (p.mark settings (.text text)).level = p.level := by
  unfold mark write
  dsimp only
  split <;> rfl

theorem level_gap (settings : LayoutSettings) (p : Page) :
    (p.mark settings .gap).level = p.level := by
  have blank (n : Nat) (p : Page) : (n.repeat endLine p).level = p.level := by
    induction n with
    | zero => rfl
    | succ n ih => exact ih
  rw [mark, blank]
  unfold endBegunLine
  split <;> rfl

end Page

namespace Fits

variable {e : LineEnd} {level : Nat} {raws : List (List Char)} {marks : List Mark}

/-- Without the raw texts, the lines are clean. -/
theorem clean (h : Fits e level raws marks) (settings : LayoutSettings) (begun : List Char)
    (ends : e.Ends settings.indentWidth begun) :
    ∃ outside, Woven raws outside (put settings level e.isFresh marks) ∧
      ∀ line ∈ newlinePieces (begun ++ outside), IsClean settings.indentWidth line := by
  induction h generalizing begun with
  | done =>
    refine ⟨['\n'], .refl _, ?_⟩
    rw [newlinePieces_append, newlinePieces_line ends.1.1]
    exact List.forall_mem_cons.mpr
      ⟨ends.1.isClean ends.2, List.forall_mem_singleton.mpr (isClean_nil _)⟩
  | nothing later ih => exact ih begun ends
  | @write e level raws raws' marks text outside woven free filled begins later ih =>
    obtain ⟨outside', woven', clean⟩ := ih _ (ends.write free filled begins level)
    rw [isFresh_lineEnd] at woven'
    refine ⟨e.margin settings.indentWidth level ++ outside ++ outside', ?_, ?_⟩
    · rw [put_write settings e level (woven.ne_nil filled)]
      exact ((Woven.refl _).append woven).append woven'
    · rwa [← List.append_assoc]
  | newline later ih =>
    obtain ⟨outside, woven, clean⟩ := ih [] rfl
    refine ⟨'\n' :: outside, woven.char '\n', ?_⟩
    rw [newlinePieces_append, newlinePieces_line ends.1.1]
    exact List.forall_mem_cons.mpr ⟨ends.1.isClean ends.2, clean⟩
  | @gap level raws marks later ih =>
    obtain ⟨outside, woven, clean⟩ := ih [] rfl
    refine ⟨'\n' :: (List.replicate settings.memberGap '\n' ++ outside),
      ((Woven.refl _).append woven).char '\n', ?_⟩
    rw [newlinePieces_append, newlinePieces_line ends.1.1]
    exact List.forall_mem_cons.mpr ⟨ends.1.isClean ends.2,
      forall_newlinePieces_blank (isClean_nil _) clean settings.memberGap⟩
  | indent later ih => exact ih begun ends
  | dedent later ih => exact ih begun ends

/-- The text ends in one line end, behind a character that is no part of a line end. -/
theorem ends (h : Fits e level raws marks) (settings : LayoutSettings) (begun : List Char)
    (last : e.isFresh = false → ∃ before c, begun = before ++ [c] ∧ isBreak c = false) :
    ∃ before c, begun ++ put settings level e.isFresh marks = before ++ [c, '\n'] ∧
      isBreak c = false := by
  have fresh : LineEnd.fresh.isFresh ≠ false := by decide
  induction h generalizing begun with
  | done =>
    obtain ⟨before, c, rfl, other⟩ := last rfl
    exact ⟨before, c, List.append_assoc _ _ _, other⟩
  | nothing later ih => exact ih begun last
  | @write e level raws raws' marks text outside woven free filled begins later ih =>
    rw [put_write settings e level (woven.ne_nil filled), ← List.append_assoc]
    rw [isFresh_lineEnd] at ih
    refine ih _ fun _ => ?_
    have found := List.getLast?_eq_some_getLast filled
    rw [← woven.getLast?_eq] at found
    obtain ⟨before, same⟩ := List.getLast?_eq_some_iff.mp found
    refine ⟨begun ++ (e.margin settings.indentWidth level ++ before), _, ?_,
      free _ (List.getLast_mem filled)⟩
    rw [same]
    simp only [List.append_assoc]
  | newline later ih =>
    rw [put, ← List.singleton_append, ← List.append_assoc]
    exact ih _ fun begun => absurd begun fresh
  | gap later ih =>
    rw [put, ← List.append_assoc]
    exact ih _ fun begun => absurd begun fresh
  | indent later ih => exact ih begun last
  | dedent later ih => exact ih begun last

/-- What is written on a new line does not begin with a line end. -/
theorem head?_put (h : Fits .fresh level raws marks) (settings : LayoutSettings) :
    ∃ c cs, put settings level true marks = c :: cs ∧ c ≠ '\n' := by
  generalize begin : LineEnd.fresh = e at h
  induction h with
  | done | newline | gap => cases begin
  | nothing later ih => exact ih begin
  | @write e level raws raws' marks text outside woven free filled begins later ih =>
    subst begin
    have written := put_write settings .fresh level (woven.ne_nil filled) marks
    obtain ⟨c, rest, rfl⟩ := List.exists_cons_of_ne_nil filled
    have first := woven.head?_eq
    obtain ⟨cs, spelled⟩ := List.head?_eq_some_iff.mp first
    have other : c ≠ '\n' := fun same => nomatch same ▸ free c (List.mem_cons_self ..)
    rw [spelled] at written
    cases steps : level * settings.indentWidth with
    | zero =>
      rw [LineEnd.margin, steps] at written
      exact ⟨c, _, written, other⟩
    | succ n =>
      rw [LineEnd.margin, steps] at written
      exact ⟨' ', _, written, by decide⟩
  | indent later ih => exact ih begin
  | dedent later ih => exact ih begin

/-- What is left of the marks fits behind those that have been done. -/
theorem behind {before after : List Mark} (h : Fits e level raws (before ++ after))
    (settings : LayoutSettings) {p : Page} (here : p.level = level) :
    ∃ e' raws', Fits e' (before.foldl (Page.mark settings) p).level raws' after := by
  induction before generalizing e level raws p with
  | nil => exact ⟨e, raws, here ▸ h⟩
  | cons m before ih =>
    rw [List.foldl_cons]
    cases h with
    | nothing later => exact ih later here
    | write woven free filled begins later => exact ih later (by rw [Page.level_text, here])
    | newline later => exact ih later here
    | gap later => exact ih later (by rw [Page.level_gap, here])
    | indent later => exact ih later (congrArg (· + 1) here)
    | dedent later => exact ih later (congrArg (· - 1) here)

end Fits

/-- Marks that can be written in some way end on level zero. -/
theorem Fits.level_nil {e : LineEnd} {level : Nat} {raws : List (List Char)}
    (h : Fits e level raws []) : level = 0 := by
  cases h
  rfl

/-- A mark that leads out of a level is not written on level zero. -/
theorem Fits.level_dedent {e : LineEnd} {level : Nat} {raws : List (List Char)}
    {marks : List Mark} (h : Fits e level raws (.dedent :: marks)) : 0 < level := by
  cases h
  exact Nat.succ_pos _

end Apex
