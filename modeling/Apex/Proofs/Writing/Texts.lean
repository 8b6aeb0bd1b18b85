import Apex.Proofs.Shape.Types
import Apex.Proofs.Spans.Types
import Apex.Proofs.Writing.Tokens

/-!
# Types, literals and annotations as text

What is written on one line without an expression in it: the fixed words and marks of the language,
types, dotted names, literals, modifiers and annotations. Each is cut into the tokens it stands for
before anything that may follow an operand.
-/

namespace Apex

open Form

/-- All the forms can be written. -/
def Form.AllSayable (forms : List Form) : Prop := ∀ form ∈ forms, form.Sayable

namespace Form

variable {form : Form} {forms others : List Form}

@[simp] theorem allSayable_nil : AllSayable [] := by simp [AllSayable]

@[simp] theorem allSayable_cons :
    AllSayable (form :: forms) ↔ form.Sayable ∧ AllSayable forms := List.forall_mem_cons

@[simp] theorem allSayable_append :
    AllSayable (forms ++ others) ↔ AllSayable forms ∧ AllSayable others := List.forall_mem_append

@[simp] theorem allSayable_flatten {rows : List (List Form)} :
    AllSayable rows.flatten ↔ ∀ row ∈ rows, AllSayable row := by
  simp only [AllSayable, List.forall_mem_flatten]

@[simp] theorem allSayable_flatMap {α : Type} {f : α → List Form} {xs : List α} :
    AllSayable (xs.flatMap f) ↔ ∀ x ∈ xs, AllSayable (f x) := by
  simp only [AllSayable, List.forall_mem_flatMap]

@[simp] theorem sayable_mark (p : Punctuation) : (mark p).Sayable := trivial

@[simp] theorem allSayable_commas {rows : List (List Form)} :
    AllSayable (commas rows) ↔ ∀ row ∈ rows, AllSayable row := by
  cases rows with
  | nil => simp [commas]
  | cons row rows => simp [commas]

theorem allSayable_angled {rows : List (List Form)} :
    AllSayable (angled rows) ↔ ∀ row ∈ rows, AllSayable row := by
  cases rows with
  | nil => simp [angled]
  | cons row rows =>
    have less : (sign .less).Sayable := rfl
    have greater : (sign .greater).Sayable := rfl
    rw [← allSayable_commas]
    simp [angled, less, greater]

@[simp] theorem allSayable_parens : AllSayable (parens forms) ↔ AllSayable forms := by
  simp [parens]

@[simp] theorem allSayable_braces : AllSayable (braces forms) ↔ AllSayable forms := by
  simp [braces]

end Form

/-! ## What may follow an operand -/

/-- Neither a part of a word, nor a point with digits behind it, nor the sign `=`, which would be
joined to a closing `>`. -/
structure Loose (behind : List Char) : Prop extends Numeral.Ends behind where
  assign : Stops (· == '=') behind

/-- The character may follow an operand, whatever comes behind it. -/
def isLoose (c : Char) : Bool := !isWordPart c && c != '=' && c != '.'

section

variable {c : Char} {behind : List Char}

theorem Loose.nil : Loose [] where
  stops := .nil
  point := by simp
  assign := .nil

theorem Loose.cons (loose : isLoose c = true) (cs : List Char) : Loose (c :: cs) := by
  simp only [isLoose, Bool.and_eq_true, Bool.not_eq_true', bne_iff_ne] at loose
  obtain ⟨⟨part, assign⟩, point⟩ := loose
  exact ⟨⟨.cons part cs, fun rest same => absurd (List.cons.inj same).1 point⟩,
    .cons (by simpa using assign) cs⟩

theorem Loose.dot (stops : Stops Char.isDigit behind) : Loose ('.' :: behind) where
  stops := .cons (by decide) _
  point rest same := by rwa [← (List.cons.inj same).2]
  assign := .cons (by decide) _

end

/-! ## Texts before what may follow an operand -/

/-- The text is cut into tokens of the forms, before anything that may follow an operand. -/
def Writes (forms : List Form) (text : List Char) : Prop :=
  ∀ ⦃others : List Form⦄ ⦃behind : List Char⦄, Loose behind → Spells others behind →
    Spells (forms ++ others) (text ++ behind)

/-- Moreover the text may follow an operand. -/
structure Trails (forms : List Form) (text : List Char) : Prop where
  writes : Writes forms text
  loose : ∀ ⦃behind : List Char⦄, Loose behind → Loose (text ++ behind)

section

variable {forms forms' : List Form} {text text' : List Char} {α : Type} {f : α → List Form}
  {t : α → List Char} {xs : List α}

theorem Writes.nil : Writes [] [] := fun _ _ _ rest => rest

theorem Writes.append (h : Writes forms text) (h' : Trails forms' text') :
    Writes (forms ++ forms') (text ++ text') := by
  intro others behind loose rest
  rw [List.append_assoc, List.append_assoc]
  exact h (h'.loose loose) (h'.writes loose rest)

/-- An empty text spells no forms. -/
theorem Spells.forms_eq_nil (spelled : Spells forms []) : forms = [] := by
  generalize none : ([] : List Char) = cs at spelled
  cases spelled with
  | nil => rfl
  | gap => cases none
  | token => cases none
  | operator => simp at none

/-- What stands for a token is not empty. -/
theorem Writes.ne_nil (h : Writes forms text) (some : forms ≠ []) : text ≠ [] := by
  rintro rfl
  have spelled : Spells forms [] := by simpa using h .nil .nil
  exact some spelled.forms_eq_nil

theorem Trails.nil : Trails [] [] := ⟨.nil, fun _ loose => loose⟩

theorem Trails.append (h : Trails forms text) (h' : Trails forms' text') :
    Trails (forms ++ forms') (text ++ text') where
  writes := h.writes.append h'
  loose behind loose := by
    rw [List.append_assoc]
    exact h.loose (h'.loose loose)

theorem Trails.flatMap (h : ∀ x ∈ xs, Trails (f x) (t x)) :
    Trails (xs.flatMap f) (xs.flatMap t) := by
  induction xs with
  | nil => exact .nil
  | cons x xs ih =>
    obtain ⟨first, rest⟩ := List.forall_mem_cons.mp h
    exact first.append (ih rest)

theorem intercalate_cons (separator first : List α) (rows : List (List α)) :
    separator.intercalate (first :: rows) = first ++ rows.flatMap fun row => separator ++ row := by
  induction rows generalizing first with
  | nil => simp [List.intercalate]
  | cons row rows ih =>
    rw [List.flatMap_cons, List.append_assoc, ← ih]
    simp [List.intercalate]

/-- A comma and a blank before something else. -/
theorem Trails.comma (h : Writes forms text) : Trails (mark .comma :: forms) (',' :: ' ' :: text) where
  writes others behind loose rest := (tells_mark (p := .comma) (by decide) _).spells (.gap rfl (h loose rest))
  loose _ _ := .cons (by decide) _

/-- A list with commas between its items. -/
theorem Writes.commas (h : ∀ x ∈ xs, Writes (f x) (t x)) :
    Writes (commas (xs.map f)) ([',', ' '].intercalate (xs.map t)) := by
  cases xs with
  | nil => exact .nil
  | cons x xs =>
    obtain ⟨first, rest⟩ := List.forall_mem_cons.mp h
    rw [List.map_cons, List.map_cons, intercalate_cons, Form.commas, List.flatMap_map,
      List.flatMap_map]
    exact first.append (Trails.flatMap fun y mem => .comma (rest y mem))

end

/-! ## Words -/

theorem isWord_of_ofWord? {text : String} {k : Keyword} (found : Keyword.ofWord? text = some k) :
    IsWord text := by
  have lower : text.toList.map Char.toLower = k.word.toList := by
    rw [Keyword.word_of_ofWord? found, ← String.toList_ofList (l := text.toList.map _),
      ← lowerWord_ofList, String.ofList_toList]
  have parts : text.toList.all isWordPart = true := by
    have same : (text.toList.map Char.toLower).all isWordPart = text.toList.all isWordPart := by
      rw [List.all_map]
      exact congrArg _ (funext isWordPart_toLower)
    rw [← same, lower]
    cases k <;> decide
  have start : (text.toList.head?.map isWordStart).getD false = true := by
    rw [← wordAhead_lower, lower]
    cases k <;> decide
  cases spelled : text.toList with
  | nil =>
    rw [spelled] at start
    cases start
  | cons c cs =>
    rw [spelled] at start parts
    rw [List.all_cons, Bool.and_eq_true] at parts
    exact ⟨c, cs, spelled, start, parts.2⟩

/-! ## Fixed texts -/

/-- A part of a text that is the same for every tree. -/
inductive Fixed where
  /-- A word of the language, as it is written. -/
  | word (k : Keyword) (text : String)
  /-- A punctuation mark. -/
  | mark (p : Punctuation)
  /-- A sign. -/
  | sign (o : Operator)
  /-- Blank space. -/
  | blank
deriving DecidableEq

namespace Fixed

/-- The forms that parts of a text stand for. -/
def forms : List Fixed → List Form
  | [] => []
  | .word k _ :: parts => (if k.isReserved then keyword k else spelled k) :: forms parts
  | .mark p :: parts => Form.mark p :: forms parts
  | .sign o :: parts => Form.sign o :: forms parts
  | .blank :: parts => forms parts

/-- The characters of parts of a text. -/
def chars : List Fixed → List Char
  | [] => []
  | .word _ text :: parts => text.toList ++ chars parts
  | .mark p :: parts => p.spelling.toList ++ chars parts
  | .sign o :: parts => o.spelling.toList ++ chars parts
  | .blank :: parts => ' ' :: chars parts

/-- Whether a word can end before the parts. -/
def endWord : List Fixed → Bool
  | .word .. :: _ => false
  | _ => true

/-- Whether the parts are read one by one: words and signs are kept apart. -/
def isReadable : List Fixed → Bool
  | [] => true
  | .word k text :: parts => Keyword.ofWord? text == some k && endWord parts && isReadable parts
  | .mark p :: parts =>
    (p != .openBracket || parts.head? == some (.mark .closeBracket)) && isReadable parts
  | .sign o :: parts =>
    !o.isComposed && o != .slash && parts.head? == some .blank && isReadable parts
  | .blank :: parts => isReadable parts

/-- Whether the last part is a word. -/
def endsInWord : List Fixed → Bool
  | [] => false
  | [.word ..] => true
  | _ :: parts => endsInWord parts

theorem stops_chars {parts : List Fixed} {behind : List Char} (ends : endWord parts = true)
    (stops : parts = [] → Stops isWordPart behind) : Stops isWordPart (chars parts ++ behind) := by
  cases parts with
  | nil => exact stops rfl
  | cons part parts =>
    cases part with
    | word => cases ends
    | mark p => cases p <;> exact .cons (by decide) _
    | sign o => cases o <;> exact .cons (by decide) _
    | blank => exact .cons (by decide) _

theorem endsInWord_of_cons {part : Fixed} {parts : List Fixed} (h : endsInWord parts = true) :
    endsInWord (part :: parts) = true := by
  cases parts with
  | nil => cases h
  | cons => cases part <;> exact h

/-- A word of the language is a reserved one or one that is spelled. -/
theorem tells_word {k : Keyword} {text : String} {behind : List Char}
    (found : Keyword.ofWord? text = some k) (stops : Stops isWordPart behind) :
    (if k.isReserved then keyword k else Form.spelled k).Tells text.toList behind := by
  refine Form.tells_of_word (isWord_of_ofWord? found) stops ?_
  cases reserved : k.isReserved with
  | true =>
    rw [if_pos rfl]
    refine fits_keyword ?_
    rw [Keyword.reservedOfWord?, found, Option.filter_some, if_pos reserved]
  | false =>
    rw [if_neg (by decide)]
    refine fits_spelled reserved ?_
    rw [Keyword.isSpelledBy, sameWord, Keyword.word_of_ofWord? found, lowerWord_lowerWord]
    exact beq_self_eq_true _

/-- Fixed parts that are read one by one are cut into what they stand for. -/
theorem spells {parts : List Fixed} {others : List Form} {behind : List Char}
    (readable : isReadable parts = true)
    (stops : endsInWord parts = true → Stops isWordPart behind) (rest : Spells others behind) :
    Spells (forms parts ++ others) (chars parts ++ behind) := by
  induction parts with
  | nil => exact rest
  | cons part parts ih =>
    have stops' (h : endsInWord parts = true) := stops (endsInWord_of_cons h)
    cases part with
    | word k text =>
      simp only [isReadable, Bool.and_eq_true, beq_iff_eq] at readable
      obtain ⟨⟨found, ends⟩, readable⟩ := readable
      have ends := stops_chars ends fun none => stops (by rw [none]; rfl)
      rw [chars, List.append_assoc]
      exact (tells_word found ends).spells (ih readable stops')
    | mark p =>
      simp only [isReadable, Bool.and_eq_true, Bool.or_eq_true, bne_iff_ne, beq_iff_eq] at readable
      obtain ⟨plain, readable⟩ := readable
      rw [chars, List.append_assoc]
      refine Form.Tells.spells ?_ (ih readable stops')
      by_cases opens : p = .openBracket
      · subst opens
        obtain ⟨parts, rfl⟩ := List.head?_eq_some_iff.mp (plain.resolve_left (by simp))
        exact tells_bracket (queryAhead?_of_stop (by decide) (by decide) _)
      · exact tells_mark opens _
    | sign o =>
      simp only [isReadable, Bool.and_eq_true, Bool.not_eq_true', bne_iff_ne, beq_iff_eq]
        at readable
      obtain ⟨⟨⟨single, noComment⟩, blank⟩, readable⟩ := readable
      obtain ⟨parts, rfl⟩ := List.head?_eq_some_iff.mp blank
      rw [chars, List.append_assoc]
      exact (tells_sign single noComment (.cons (by decide) _)).spells (ih readable stops')
    | blank => exact .gap rfl (ih readable stops')

end Fixed

theorem Writes.fixed {p : List Fixed} (readable : Fixed.isReadable p = true) :
    Writes (Fixed.forms p) (Fixed.chars p) :=
  fun _ _ loose rest => Fixed.spells readable (fun _ => loose.stops) rest

/-! ## Names and types -/

theorem Writes.token {form : Form} {text : List Char}
    (h : ∀ {behind : List Char}, Loose behind → form.Tells text behind) : Writes [form] text :=
  fun _ _ loose rest => (h loose).spells rest

theorem writes_ident {i : Ident} (h : (ident i).Sayable) : Writes [ident i] i.value.toList :=
  .token fun loose => Form.tells_of_word h.1 loose.stops (fits_name h.2.1)

theorem writes_word {text : String} (h : (word text).Sayable) : Writes [word text] text.toList :=
  .token fun loose => Form.tells_of_word h.1 loose.stops fits_word

/-- A point before a word. -/
theorem Trails.dot {forms : List Form} {text : String} (letter : IsWord text)
    (h : Writes forms text.toList) : Trails (mark .dot :: forms) ('.' :: text.toList) where
  writes others behind loose rest :=
    (tells_mark (p := .dot) (by decide) _).spells (h loose rest)
  loose behind _ := by
    obtain ⟨c, cs, spelled, start, -⟩ := letter
    rw [spelled]
    refine .dot (.cons ?_ _)
    by_contra digit
    exact not_isWordStart_of_isDigit (by simpa using digit) start

/-- A dotted name, whose further parts have the given form. -/
theorem writes_dotted {form : Ident → Form} {is : List Ident}
    (say : AllSayable (dotted form is)) (words : ∀ i, (form i).Sayable → IsWord i.value)
    (h : ∀ i, (form i).Sayable → Writes [form i] i.value.toList) :
    Writes (dotted form is) (['.'].intercalate (is.map (·.value.toList))) := by
  cases is with
  | nil => exact .nil
  | cons i is =>
    simp only [dotted, allSayable_cons, allSayable_flatMap] at say
    rw [List.map_cons, intercalate_cons, List.flatMap_map]
    refine (writes_ident say.1).append (Trails.flatMap fun j mem => ?_)
    have part := (say.2 j mem).2.1
    exact .dot (words j part) (h j part)

theorem QualifiedName.toList_text (q : QualifiedName) :
    q.text.toList = ['.'].intercalate (q.parts.map (·.value.toList)) := by
  rw [QualifiedName.text, String.toList_intercalate, List.map_map]
  rfl

theorem QualifiedName.writes {q : QualifiedName} (say : AllSayable q.forms) :
    Writes q.forms q.text.toList := by
  rw [q.toList_text]
  exact writes_dotted say (fun _ word => word.1) fun _ => writes_word

theorem markJoins_of_isWordStart {c : Char} (letter : isWordStart c = true) :
    markJoins c = false := by
  by_contra joins
  have all : ['+', '-', '=', '&', '|', '<', '>'].all (!isWordStart ·) = true := by decide
  have other := List.all_eq_true.mp all c (of_decide_eq_true (Bool.not_eq_false _ ▸ joins))
  rw [letter] at other
  cases other

/-- The brackets behind the name of a type. -/
theorem trails_brackets (n : Nat) :
    Trails (brackets n) (String.join (List.replicate n "[]")).toList := by
  rw [String.toList_join]
  induction n with
  | zero => exact .nil
  | succ n ih =>
    have pair : Trails [mark .openBracket, mark .closeBracket] ['[', ']'] :=
      ⟨Writes.fixed (p := [.mark .openBracket, .mark .closeBracket]) rfl, fun _ _ =>
        .cons (by decide) _⟩
    rw [brackets, List.replicate_succ, List.replicate_succ, List.flatten_cons, List.flatMap_cons]
    exact pair.append ih

/-- Type arguments in their angle brackets. -/
theorem Trails.angled {rows : List (List Form)} {text : List Char} (h : Writes (commas rows) text)
    (letter : ∀ {behind : List Char}, Stops markJoins (text ++ behind)) (some : rows ≠ []) :
    Trails (Form.angled rows) ('<' :: text ++ ['>']) := by
  have forms : Form.angled rows = sign .less :: commas rows ++ [sign .greater] := by
    cases rows with
    | nil => exact absurd rfl some
    | cons => rfl
  rw [forms]
  constructor
  · intro others behind loose rest
    have closing := (tells_greater loose.assign).spells rest
    have inner := h (.cons (by decide) _) closing
    have opening := (tells_sign (o := .less) rfl (by decide) letter).spells inner
    rw [List.append_assoc, List.append_assoc]
    exact opening
  · exact fun _ _ => .cons (by decide) _

namespace TypeRef

theorem texts_eq_map (ts : List TypeRef) : texts ts = ts.map text := by
  induction ts with
  | nil => rfl
  | cons t ts ih => rw [texts, ih, List.map_cons]

theorem toList_text (t : TypeRef) :
    t.text.toList = ['.'].intercalate (t.segments.map (·.value.toList)) ++
      (if t.arguments = [] then [] else
        '<' :: [',', ' '].intercalate (t.arguments.map (·.text.toList)) ++ ['>']) ++
      (String.join (List.replicate t.dimensions "[]")).toList := by
  obtain ⟨span, segments, arguments, dimensions⟩ := t
  rw [text]
  dsimp only
  rw [texts_eq_map, String.toList_append, String.toList_append, String.toList_intercalate, List.map_map]
  cases arguments with
  | nil => rfl
  | cons t ts =>
    rw [if_neg (by simp), if_neg (by simp), String.toList_append, String.toList_append,
      String.toList_intercalate, List.map_map]
    rfl

/-- A type begins with a letter. -/
theorem exists_letter {t : TypeRef} (sound : t.node.IsSound) (say : AllSayable t.forms) :
    ∃ c cs, t.text.toList = c :: cs ∧ isWordStart c = true := by
  obtain ⟨span, segments, arguments, dimensions⟩ := t
  have named : segments ≠ [] := sound.element
  rw [toList_text]
  obtain ⟨i, is, rfl⟩ := List.exists_cons_of_ne_nil named
  simp only [forms, dotted, allSayable_append, allSayable_cons] at say
  obtain ⟨c, cs, spelled, letter, -⟩ := say.1.1.1.1
  rw [List.map_cons, intercalate_cons, spelled]
  exact ⟨c, _, rfl, letter⟩

theorem isSound_arguments {t : TypeRef} (sound : t.node.IsSound) :
    ∀ a ∈ t.arguments, a.node.IsSound := by
  obtain ⟨span, segments, arguments, dimensions⟩ := t
  obtain ⟨-, below⟩ := sound
  rw [nodes_eq_map] at below
  exact fun a mem => below _ (List.mem_append_right _ (List.mem_map_of_mem mem))

mutual

/-- A type is cut into what it stands for. -/
theorem writes : (t : TypeRef) → t.node.IsSound → AllSayable t.forms → Writes t.forms t.text.toList
  | ⟨span, segments, arguments, dimensions⟩, sound, say => by
    have inner := isSound_arguments sound
    have letters (t : TypeRef) := exists_letter (t := t)
    dsimp only at inner
    rw [toList_text]
    rw [forms, formsOf_eq_map] at say ⊢
    simp only [allSayable_append] at say
    refine ((writes_dotted say.1.1 (fun _ name => name.1) fun _ => writes_ident).append ?_).append
      (trails_brackets dimensions)
    cases arguments with
    | nil => exact .nil
    | cons t ts =>
      have given : ∀ a ∈ t :: ts, AllSayable a.forms :=
        List.forall_mem_map.mp (allSayable_angled.mp say.1.2)
      have all := writesAll (t :: ts) inner given
      obtain ⟨c, cs, spelled, letter⟩ :=
        exists_letter (inner t (List.mem_cons_self ..)) (given t (List.mem_cons_self ..))
      rw [if_neg (List.cons_ne_nil _ _)]
      refine .angled (.commas all) ?_ (by simp)
      intro behind
      rw [List.map_cons, intercalate_cons, spelled]
      exact .cons (markJoins_of_isWordStart letter) _

/-- Types are each cut into what they stand for. -/
theorem writesAll : (ts : List TypeRef) → (∀ t ∈ ts, t.node.IsSound) →
    (∀ t ∈ ts, AllSayable t.forms) → ∀ t ∈ ts, Writes t.forms t.text.toList
  | [], _, _ => by simp
  | t :: ts, sound, say => by
    rw [List.forall_mem_cons] at sound say ⊢
    exact ⟨t.writes sound.1 say.1, writesAll ts sound.2 say.2⟩

end

end TypeRef

/-! ## Literals -/

theorem Literal.writes {v : Literal} (say : AllSayable v.forms) : Writes v.forms v.text.toList := by
  cases v with
  | integer value =>
    have positive : 0 ≤ value.toInt := say (.kind (.integer value)) (List.mem_singleton_self _)
    exact .token fun loose => Form.tells_integer positive loose.toEnds fun _ => rfl
  | long value =>
    have positive : 0 ≤ value.toInt := say (.kind (.long value)) (List.mem_singleton_self _)
    exact .token fun _ => Form.tells_long positive fun _ => rfl
  | decimal value =>
    obtain ⟨positive, number⟩ := say (.kind (.decimal value)) (List.mem_singleton_self _)
    exact .token fun loose => tells_decimal positive number loose.stops
  | string value => exact .token fun _ => tells_string value _
  | boolean value =>
    cases value with
    | true => exact .fixed (p := [.word .kwTrue "true"]) (by decide +kernel)
    | false => exact .fixed (p := [.word .kwFalse "false"]) (by decide +kernel)
  | null => exact .fixed (p := [.word .kwNull "null"]) (by decide +kernel)
  | soql query =>
    have holds : QueryLanguage.soql.Holds query :=
      say (.kind (.soql query)) (List.mem_singleton_self _)
    exact .token fun _ => tells_query holds _
  | sosl query =>
    have holds : QueryLanguage.sosl.Holds query :=
      say (.kind (.sosl query)) (List.mem_singleton_self _)
    exact .token fun _ => tells_query holds _

theorem markJoins_of_isDigit {c : Char} (digit : c.isDigit = true) : markJoins c = false := by
  by_contra joins
  have all : ['+', '-', '=', '&', '|', '<', '>'].all (!Char.isDigit ·) = true := by decide
  have other := List.all_eq_true.mp all c (of_decide_eq_true (Bool.not_eq_false _ ▸ joins))
  rw [digit] at other
  cases other

/-- A minus sign in front of a number. -/
theorem Writes.negative {forms : List Form} {text : String} (h : Writes forms text.toList)
    (digits : ∃ c cs, text.toList = c :: cs ∧ c.isDigit = true) :
    Writes (sign .minus :: forms) ("-" ++ text).toList := by
  intro others behind loose rest
  obtain ⟨c, cs, spelled, digit⟩ := digits
  have stops : Stops markJoins (text.toList ++ behind) := by
    rw [spelled]
    exact .cons (markJoins_of_isDigit digit) _
  rw [String.toList_append, List.append_assoc]
  exact (tells_sign (o := .minus) rfl (by decide) stops).spells (h loose rest)

section

variable {value : Int64}

/-- A negative number that has an opposite is written as that behind a sign. -/
theorem toString_negative (negative : value.toInt < 0) (opposite : 0 ≤ (-value).toInt) :
    toString value.toInt = "-" ++ toString (-value).toInt := by
  have low := value.le_toInt
  have same : (-value).toInt = -value.toInt := by
    rw [Int64.toInt_neg] at opposite ⊢
    rw [Int.bmod_def] at opposite ⊢
    omega
  obtain ⟨n, eq⟩ := Int.eq_negSucc_of_lt_zero negative
  rw [same, eq]
  rfl

theorem exists_digit (positive : 0 ≤ value.toInt) (mark : String) :
    ∃ c cs, (toString value.toInt ++ mark).toList = c :: cs ∧ c.isDigit = true := by
  have digits := isDigit_head_toDigits value.toInt.toNat mark.toList
  rw [String.toList_append, toList_toString positive]
  obtain ⟨c, cs, spelled⟩ := List.exists_cons_of_ne_nil
    (Nat.toDigits_ne_nil (n := value.toInt.toNat) (b := 10))
  rw [spelled] at digits ⊢
  exact ⟨c, _, rfl, digits c rfl⟩

end

/-- The literal of an annotation's argument, with its sign. -/
theorem Literal.writes_signed {v : Literal} (say : AllSayable v.signedForms) :
    Writes v.signedForms v.text.toList := by
  cases v with
  | integer value =>
    simp only [signedForms] at say ⊢
    split
    · next negative =>
      rw [if_pos negative] at say
      have opposite : 0 ≤ (-value).toInt := say _ (List.mem_cons_of_mem _ (List.mem_singleton_self _))
      rw [text, toString_negative negative opposite]
      refine .negative (.token fun loose => Form.tells_integer opposite loose.toEnds fun _ => rfl) ?_
      simpa using exists_digit opposite ""
    · next positive =>
      have positive : 0 ≤ value.toInt := by omega
      split
      · next zero =>
        subst zero
        exact .token fun loose => Form.tells_integer positive loose.toEnds fun _ => ⟨rfl, rfl⟩
      · exact .token fun loose => Form.tells_integer positive loose.toEnds fun _ => rfl
  | long value =>
    simp only [signedForms] at say ⊢
    split
    · next negative =>
      rw [if_pos negative] at say
      have opposite : 0 ≤ (-value).toInt := say _ (List.mem_cons_of_mem _ (List.mem_singleton_self _))
      rw [text, toString_negative negative opposite, String.append_assoc]
      exact .negative (.token fun _ => Form.tells_long opposite fun _ => rfl) (exists_digit opposite "L")
    · next positive =>
      have positive : 0 ≤ value.toInt := by omega
      split
      · next zero =>
        subst zero
        exact .token fun _ => Form.tells_long positive fun _ => ⟨rfl, rfl⟩
      · exact .token fun _ => Form.tells_long positive fun _ => rfl
  | decimal value =>
    simp only [signedForms] at say ⊢
    split
    · next negative =>
      rw [if_pos negative] at say
      obtain ⟨positive, number⟩ : value.neg.isNegative = false ∧ value.neg.isNaN = false :=
        say _ (List.mem_cons_of_mem _ (List.mem_singleton_self _))
      rw [text, Binary64.literalText_negative negative positive number]
      exact .negative (.token fun loose => tells_decimal positive number loose.stops)
        (Binary64.exists_digit positive number)
    · next positive =>
      rw [if_neg positive] at say
      exact Literal.writes (v := .decimal value) say
  | string value => exact Literal.writes (v := .string value) say
  | boolean value => exact Literal.writes (v := .boolean value) say
  | null => exact Literal.writes (v := .null) say
  | soql query => exact Literal.writes (v := .soql query) say
  | sosl query => exact Literal.writes (v := .sosl query) say

/-! ## Modifiers -/

/-- The words of a modifier. -/
def Modifier.parts (m : Modifier) : List Fixed :=
  match m.keyword? with
  | some k => [.word k m.text]
  | none =>
    match m with
    | .withoutSharing => [.word .kwWithout "without", .blank, .word .kwSharing "sharing"]
    | .inheritedSharing => [.word .kwInherited "inherited", .blank, .word .kwSharing "sharing"]
    | _ => [.word .kwWith "with", .blank, .word .kwSharing "sharing"]

theorem Modifier.writes (m : Modifier) : Writes m.forms m.text.toList := by
  have same : m.forms = Fixed.forms m.parts ∧ m.text.toList = Fixed.chars m.parts := by
    cases m <;> exact ⟨rfl, by decide⟩
  have readable : Fixed.isReadable m.parts = true := by
    cases m <;> decide +kernel
  rw [same.1, same.2]
  exact .fixed readable

theorem Modifier.text_ne_nil (m : Modifier) : m.text.toList ≠ [] := by
  cases m <;> decide

/-! ## Annotations -/

section

variable {forms : List Form} {text : List Char} {α : Type} {f : α → List Form}
  {t : α → List Char} {xs : List α}

/-- A list with blanks between its items. -/
theorem Writes.spaced (h : ∀ x ∈ xs, Writes (f x) (t x)) :
    Writes (xs.map f).flatten ([' '].intercalate (xs.map t)) := by
  cases xs with
  | nil => exact .nil
  | cons x xs =>
    obtain ⟨first, rest⟩ := List.forall_mem_cons.mp h
    rw [List.map_cons, List.map_cons, intercalate_cons, List.flatten_cons, List.flatMap_map,
      ← List.flatMap_def]
    refine first.append (Trails.flatMap fun y mem => ⟨fun others behind loose behind => ?_, fun _ _ => ?_⟩)
    · exact .gap rfl (rest y mem loose behind)
    · exact .cons (by decide) _

theorem Writes.braces (h : Writes forms text) :
    Writes (Form.braces forms) ('\x7b' :: text ++ ['\x7d']) := by
  intro others behind _ rest
  have closing := (tells_mark (p := .closeBrace) (by decide) behind).spells rest
  have inner := h (.cons (by decide) _) closing
  have opening := (tells_mark (p := .openBrace) (by decide) _).spells inner
  rw [Form.braces, List.append_assoc, List.append_assoc]
  exact opening

theorem Trails.parens (h : Writes forms text) :
    Trails (Form.parens forms) ('(' :: text ++ [')']) where
  writes others behind _ rest := by
    have closing := (tells_mark (p := .closeParen) (by decide) behind).spells rest
    have inner := h (.cons (by decide) _) closing
    have opening := (tells_mark (p := .openParen) (by decide) _).spells inner
    rw [Form.parens, List.append_assoc, List.append_assoc]
    exact opening
  loose _ _ := .cons (by decide) _

/-- A comma, if there is one. -/
theorem trails_comma (comma : Bool) :
    Trails (if comma then [mark .comma] else []) (if comma then "," else "").toList := by
  cases comma with
  | false => exact .nil
  | true => exact ⟨.fixed (p := [.mark .comma]) rfl, fun _ _ => .cons (by decide) _⟩

/-- A key before the value of an annotation's argument. -/
theorem Writes.assigned {key : Ident} (say : (ident key).Sayable) (h : Writes forms text) :
    Writes ([ident key, sign .assign] ++ forms) (key.value.toList ++ " = ".toList ++ text) := by
  intro others behind loose rest
  have readable : Fixed.isReadable [.blank, .sign .assign, .blank] = true := rfl
  have sign := Fixed.spells readable (by simp [Fixed.endsInWord]) (h loose rest)
  have name := writes_ident say (.cons (by decide) _) sign
  rw [List.append_assoc, List.append_assoc, List.append_assoc]
  exact name

end

theorem AnnotationElement.texts_eq_map (es : List AnnotationElement) :
    AnnotationElement.texts es = es.map AnnotationElement.text := by
  induction es with
  | nil => rfl
  | cons e es ih => rw [texts, ih, List.map_cons]

theorem AnnotationValue.texts_eq_map (vs : List AnnotationValue) :
    AnnotationValue.texts vs = vs.map AnnotationValue.text := by
  induction vs with
  | nil => rfl
  | cons v vs ih => rw [texts, ih, List.map_cons]

theorem AnnotationMark.text_ne_nil (a : AnnotationMark) : a.text.toList ≠ [] := by
  obtain ⟨span, name, elements, parenthesized⟩ := a
  cases parenthesized <;> simp [text]

mutual

/-- An annotation is cut into what it stands for. -/
theorem AnnotationMark.writes :
    (a : AnnotationMark) → AllSayable a.forms → Writes a.forms a.text.toList
  | .mk _ name elements parenthesized, say => by
    rw [AnnotationMark.forms, AnnotationElement.formsOf_eq_map] at say ⊢
    simp only [allSayable_cons] at say
    obtain ⟨-, sayName, sayRest⟩ := say
    have named {forms : List Form} {text : List Char} (h : Trails forms text) :
        Writes (mark .at :: ident name :: forms) ('@' :: (name.value.toList ++ text)) :=
      fun others behind loose rest =>
        (tells_mark (p := .at) (by decide) _).spells ((writes_ident sayName).append h loose rest)
    cases parenthesized with
    | false =>
      have := named .nil
      rw [List.append_nil] at this
      rw [AnnotationMark.text, String.toList_append]
      exact this
    | true =>
      have all := AnnotationElement.writesAll elements (by simpa using sayRest)
      rw [AnnotationMark.text, AnnotationElement.texts_eq_map]
      simp only [String.toList_append, String.toList_intercalate, List.map_map, List.append_assoc]
      exact named (.parens (.spaced all))

/-- An argument of an annotation is cut into what it stands for. -/
theorem AnnotationElement.writes : (e : AnnotationElement) → AllSayable e.forms →
    Writes e.forms e.text.toList
  | .mk span key value comma, say => by
    cases key with
    | none =>
      have say : AllSayable (value.forms ++ if comma then [mark .comma] else []) := say
      have text : (AnnotationElement.mk span none value comma).text.toList =
          value.text.toList ++ (if comma then "," else "").toList := by
        rw [AnnotationElement.text, String.toList_append, String.toList_append]
        rfl
      rw [text]
      exact (value.writes (allSayable_append.mp say).1).append (trails_comma comma)
    | some key =>
      have say : AllSayable ([ident key, sign .assign] ++ value.forms ++
        if comma then [mark .comma] else []) := say
      simp only [allSayable_append, allSayable_cons] at say
      have text : (AnnotationElement.mk span (some key) value comma).text.toList =
          key.value.toList ++ " = ".toList ++ value.text.toList ++
            (if comma then "," else "").toList := by
        simp only [AnnotationElement.text, String.toList_append]
      rw [text]
      exact (Writes.assigned say.1.1.1 (value.writes say.1.2)).append (trails_comma comma)

theorem AnnotationElement.writesAll : (es : List AnnotationElement) →
    (∀ e ∈ es, AllSayable e.forms) → ∀ e ∈ es, Writes e.forms e.text.toList
  | [], _ => by simp
  | e :: es, say => by
    rw [List.forall_mem_cons] at say ⊢
    exact ⟨e.writes say.1, AnnotationElement.writesAll es say.2⟩

/-- The value of an argument is cut into what it stands for. -/
theorem AnnotationValue.writes : (v : AnnotationValue) → AllSayable v.forms →
    Writes v.forms v.text.toList
  | .literal _ value, say => Literal.writes_signed say
  | .array _ values, say => by
    rw [AnnotationValue.forms, AnnotationValue.formsOf_eq_map] at say ⊢
    have all := AnnotationValue.writesAll values (by simpa using say)
    rw [AnnotationValue.text, AnnotationValue.texts_eq_map, String.toList_append,
      String.toList_append, String.toList_intercalate, List.map_map]
    exact .braces (.commas all)
  | .nested inner, say => inner.writes say

theorem AnnotationValue.writesAll : (vs : List AnnotationValue) →
    (∀ v ∈ vs, AllSayable v.forms) → ∀ v ∈ vs, Writes v.forms v.text.toList
  | [], _ => by simp
  | v :: vs, say => by
    rw [List.forall_mem_cons] at say ⊢
    exact ⟨v.writes say.1, AnnotationValue.writesAll vs say.2⟩

end

end Apex
