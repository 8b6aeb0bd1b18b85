import Apex.Proofs.Writing.Balance
import Apex.Proofs.Writing.Margins

/-!
# What is written is tight

The texts of types, literals and annotations stand within a line, and a line may begin and end with
each of them. Only the raw texts of queries may hold line ends.
-/

namespace Apex

open Form

/-! ## Raw texts of forms -/

namespace Form

variable {form : Form} {forms others : List Form}

@[simp] theorem raws_nil : raws [] = [] := rfl

@[simp] theorem raws_cons : raws (form :: forms) = form.raw?.toList ++ raws forms := by
  unfold raws
  rw [List.filterMap_cons]
  cases form.raw? <;> rfl

@[simp] theorem raws_append : raws (forms ++ others) = raws forms ++ raws others :=
  List.filterMap_append

@[simp] theorem raws_flatMap {α : Type} (f : α → List Form) (xs : List α) :
    raws (xs.flatMap f) = xs.flatMap fun x => raws (f x) := by
  induction xs with
  | nil => rfl
  | cons x xs ih => rw [List.flatMap_cons, raws_append, ih, List.flatMap_cons]

@[simp] theorem raws_flatten {α : Type} (f : α → List Form) (xs : List α) :
    raws (xs.map f).flatten = xs.flatMap fun x => raws (f x) := by
  rw [← List.flatMap_def, raws_flatMap]

@[simp] theorem raw?_mark (p : Punctuation) : (mark p).raw? = none := rfl

@[simp] theorem raw?_keyword (k : Keyword) : (keyword k).raw? = none := rfl

@[simp] theorem raw?_name (text : String) : (Form.kind (.name text)).raw? = none := rfl

@[simp] theorem raw?_sign (o : Operator) : (sign o).raw? = none := rfl

@[simp] theorem raw?_operator (o : Operator) : (operator o).raw? = none := rfl

@[simp] theorem raw?_word (text : String) : (word text).raw? = none := rfl

@[simp] theorem raw?_spelled (k : Keyword) : (spelled k).raw? = none := rfl

@[simp] theorem raw?_named (text : String) : (named text).raw? = none := by
  unfold named
  split <;> rfl

@[simp] theorem raw?_wordKind (text : String) : (Form.kind (wordKind text)).raw? = none := by
  unfold wordKind
  split <;> rfl

@[simp] theorem raws_commas {α : Type} (f : α → List Form) (xs : List α) :
    raws (commas (xs.map f)) = xs.flatMap fun x => raws (f x) := by
  cases xs <;> simp [commas, List.flatMap_map]

@[simp] theorem raws_angled {α : Type} (f : α → List Form) (xs : List α) :
    raws (angled (xs.map f)) = xs.flatMap fun x => raws (f x) := by
  cases xs with
  | nil => rfl
  | cons x xs =>
    have inner := raws_commas f (x :: xs)
    show raws (sign .less :: commas ((x :: xs).map f) ++ [sign .greater]) = _
    rw [raws_append, raws_cons, inner]
    simp

@[simp] theorem raws_parens : raws (parens forms) = raws forms := by simp [parens]

@[simp] theorem raws_braces : raws (braces forms) = raws forms := by simp [braces]

@[simp] theorem raws_brackets (n : Nat) : raws (brackets n) = [] := by
  unfold brackets
  induction n with
  | zero => rfl
  | succ n ih => rw [List.replicate_succ, List.flatten_cons, raws_append, ih]; rfl

theorem raws_dotted {f : Ident → Form} (h : ∀ i, (f i).raw? = none) (is : List Ident) :
    raws (dotted f is) = [] := by
  cases is <;> simp [dotted, h]

end Form

@[simp] theorem QualifiedName.raws_forms (q : QualifiedName) : raws q.forms = [] :=
  raws_dotted (fun _ => rfl) q.parts

mutual

@[simp] theorem TypeRef.raws_forms : (t : TypeRef) → raws t.forms = []
  | ⟨_, segments, arguments, dimensions⟩ => by
    have inner := TypeRef.raws_formsAll arguments
    have name : raws (dotted ident segments) = [] := raws_dotted (fun _ => rfl) segments
    simpa [TypeRef.forms, name] using inner

theorem TypeRef.raws_formsAll : (ts : List TypeRef) → ∀ t ∈ ts, raws t.forms = []
  | [] => List.forall_mem_nil _
  | t :: ts => List.forall_mem_cons.mpr ⟨t.raws_forms, TypeRef.raws_formsAll ts⟩

end

@[simp] theorem TypeRef.raws_formsBehind (k : Keyword) (types : List TypeRef) :
    raws (formsBehind k types) = [] := by
  unfold formsBehind
  split <;> simp

@[simp] theorem Modifier.raws_forms (m : Modifier) : raws m.forms = [] := by cases m <;> rfl

@[simp] theorem raws_modifierForms (modifiers : List (Spanned Modifier)) :
    raws (modifierForms modifiers) = [] := by
  simp [modifierForms]

/-! ## Words and numbers -/

theorem flatMap_nil {α β : Type} (xs : List α) : (xs.flatMap fun _ => ([] : List β)) = [] :=
  List.flatMap_eq_nil_iff.mpr fun _ _ => rfl

/-- The characters of a sort are neither spaces nor breaks if no such character is of this sort. -/
theorem solid_of {p : Char → Bool} {c : Char} (h : p c = true)
    (none : ([' ', '\n', '\r'].all fun d => !p d) = true) : isBreak c = false ∧ c ≠ ' ' := by
  have other (d : Char) (mem : d ∈ [' ', '\n', '\r']) : c ≠ d := by
    rintro rfl
    have absent := List.all_eq_true.mp none c mem
    rw [h] at absent
    exact nomatch absent
  refine ⟨?_, other ' ' (by decide)⟩
  rw [isBreak, beq_false_of_ne (other '\n' (by decide)), beq_false_of_ne (other '\r' (by decide))]
  rfl

namespace Tight

variable {raws : List (List Char)} {text : List Char}

theorem word {text : String} (word : IsWord text) : Tight [] text.toList := by
  obtain ⟨c, cs, spelled, letter, parts⟩ := word
  rw [spelled]
  refine .solid (List.cons_ne_nil _ _) (List.forall_mem_cons.mpr ⟨?_, fun d mem => ?_⟩)
  · exact solid_of letter (by decide)
  · exact solid_of (List.all_eq_true.mp parts d mem) (by decide)

theorem figures (filled : text ≠ []) (h : AllFigures text) : Tight [] text :=
  .solid filled fun c mem => solid_of (p := isFigure) (h c mem) (by decide)

/-- A text that may be missing. -/
theorem perhaps {text' : List Char} (h : Tight raws text) (h' : text' = [] ∨ Tight [] text') :
    Tight raws (text ++ text') := by
  rcases h' with rfl | h'
  · rwa [List.append_nil]
  · have both := h.append h'
    rwa [List.append_nil] at both

/-- Texts with something between them. -/
theorem intercalate {α : Type} {f : α → List (List Char)} {g : α → List Char} {xs : List α}
    (separator : List Char) (between : separator.all (!isBreak ·) = true)
    (h : ∀ x ∈ xs, Tight (f x) (g x)) (filled : xs ≠ []) :
    Tight (xs.flatMap f) (separator.intercalate (xs.map g)) := by
  obtain ⟨x, xs, rfl⟩ := List.exists_cons_of_ne_nil filled
  induction xs generalizing x with
  | nil =>
    have alone := h x (List.mem_cons_self ..)
    rw [List.flatMap_singleton]
    simpa [List.intercalate] using alone
  | cons y xs ih =>
    rw [List.forall_mem_cons] at h
    have later := h.1.around (.fixed between) (ih y h.2 (List.cons_ne_nil _ _))
    rw [List.append_nil] at later
    rw [List.map_cons, intercalate_cons] at later
    rw [List.flatMap_cons, List.map_cons, intercalate_cons, List.map_cons, List.flatMap_cons]
    simpa only [List.append_assoc, List.flatMap_cons] using later

end Tight

theorem Inline.intercalate {α : Type} {f : α → List (List Char)} {g : α → List Char}
    {xs : List α} (separator : List Char) (between : separator.all (!isBreak ·) = true)
    (h : ∀ x ∈ xs, Tight (f x) (g x)) :
    Inline (xs.flatMap f) (separator.intercalate (xs.map g)) := by
  by_cases filled : xs = []
  · subst filled
    exact .plain (List.forall_mem_nil _)
  · exact (Tight.intercalate separator between h filled).1

/-! ## Literals -/

theorem toString_ne_nil (value : Int) : (toString value).toList ≠ [] := by
  cases value with
  | ofNat n =>
    have written : (toString (Int.ofNat n)).toList = Nat.toDigits 10 n := Nat.toList_repr
    rw [written]
    exact Nat.toDigits_ne_nil
  | negSucc n =>
    have written : toString (Int.negSucc n) = "-" ++ (n + 1).repr := rfl
    rw [written, String.toList_append]
    exact List.cons_ne_nil _ _

theorem tight_toString (value : Int) : Tight [] (toString value).toList :=
  .figures (toString_ne_nil value) (allFigures_toString value)

theorem Binary64.tight_literalText (v : Binary64) : Tight [] v.literalText.toList := by
  refine .figures ?_ v.allFigures_literalText
  unfold literalText
  split
  · rw [String.toList_append, String.toList_append]
    exact List.append_ne_nil_of_right_ne_nil _ (by decide)
  · dsimp only
    split
    · next point => exact fun none => by rw [none] at point; cases point
    · rw [String.toList_append]
      exact List.append_ne_nil_of_right_ne_nil _ (by decide)

theorem isBreak_escapeLetter {c letter : Char} (h : escapeLetter? c = some letter) :
    isBreak letter = false := by
  unfold escapeLetter? at h
  split_ifs at h <;> rw [← Option.some.inj h] <;> rfl

/-- A line break is written as an escape. -/
theorem isBreak_escapeChar {c d : Char} (mem : d ∈ escapeChar c) : isBreak d = false := by
  unfold escapeChar at mem
  split at mem
  · next letter escaped =>
    rcases List.mem_pair.mp mem with rfl | rfl
    · rfl
    · exact isBreak_escapeLetter escaped
  · next free =>
    obtain rfl := List.mem_singleton.mp mem
    unfold escapeLetter? at free
    split_ifs at free with _ _ newline _ return'
    rw [isBreak, beq_false_of_ne newline, beq_false_of_ne return']
    rfl

theorem tight_quote (value : String) : Tight [] (quote value).toList := by
  have written : (quote value).toList = ['\''] ++ value.toList.flatMap escapeChar ++ ['\''] := by
    rw [quote, String.toList_ofList]
    rfl
  have quotes : Tight [] ['\''] := .fixed (by decide)
  have inner : Inline [] (value.toList.flatMap escapeChar) := by
    refine .plain fun d mem => ?_
    obtain ⟨c, -, within⟩ := List.mem_flatMap.mp mem
    exact isBreak_escapeChar within
  rw [written]
  exact quotes.around inner quotes

theorem tight_query (text : String) : Tight [text.toList] ("[" ++ text ++ "]").toList := by
  have woven : Woven [text.toList] ['[', ']'] ("[" ++ text ++ "]").toList := by
    rw [toList_brackets]
    exact Woven.nil.raw text.toList
  have free : ∀ c ∈ ['[', ']'], isBreak c = false :=
    List.forall_mem_cons.mpr ⟨rfl, List.forall_mem_singleton.mpr rfl⟩
  refine ⟨⟨['[', ']'], woven, free⟩, ?_⟩
  rw [isTrimmed, woven.head?_eq, woven.getLast?_eq]
  rfl

theorem Literal.tight (v : Literal) : Tight (raws v.forms) v.text.toList := by
  cases v with
  | integer value => exact tight_toString value.toInt
  | long value =>
    rw [text, String.toList_append]
    exact (tight_toString value.toInt).append (.fixed (by decide))
  | decimal value => exact value.tight_literalText
  | string value => exact tight_quote value
  | boolean value => cases value <;> exact .fixed (by decide)
  | null => exact .fixed (by decide)
  | soql query | sosl query => exact tight_query query.text

/-- The sign before a number holds no query. -/
theorem Literal.raws_signedForms (v : Literal) : raws v.signedForms = raws v.forms := by
  cases v with
  | integer | long | decimal =>
    simp only [signedForms]
    split_ifs <;> rfl
  | _ => rfl

/-! ## Types and names -/

theorem tight_dotted {is : List Ident} (words : ∀ i ∈ is, IsWord i.value) (filled : is ≠ []) :
    Tight [] (['.'].intercalate (is.map (·.value.toList))) := by
  have whole := Tight.intercalate ['.'] (by decide)
    (fun i mem => Tight.word (words i mem)) filled
  rwa [flatMap_nil] at whole

theorem QualifiedName.tight {q : QualifiedName} (sound : q.node.IsSound)
    (legible : AllLegible q.forms) : Tight [] q.text.toList := by
  have filled : q.parts ≠ [] := sound.element
  rw [q.toList_text]
  exact tight_dotted (legible_dotted legible fun _ => id) filled

namespace TypeRef

mutual

theorem tight : (t : TypeRef) → t.node.IsSound → AllLegible t.forms → Tight [] t.text.toList
  | ⟨span, segments, arguments, dimensions⟩, sound, legible => by
    have filled : segments ≠ [] := sound.element
    have below := isSound_arguments sound
    simp only [forms, formsOf_eq_map, allLegible_append, allLegible_angled,
      List.forall_mem_map] at legible
    rw [toList_text]
    have name := tight_dotted (legible_dotted legible.1.1 fun _ => id) filled
    refine (name.perhaps ?_).perhaps ?_
    · dsimp only
      split
      · exact .inl rfl
      · have inner := Inline.intercalate [',', ' '] (by decide)
          (tightAll arguments below legible.1.2)
        have opening : Tight [] ['<'] := .fixed (by decide)
        have closing : Tight [] ['>'] := .fixed (by decide)
        rw [flatMap_nil] at inner
        exact .inr (opening.around inner closing)
    · cases dimensions with
      | zero => exact .inl rfl
      | succ n =>
        rw [String.toList_join]
        refine .inr (.solid ?_ fun c mem => ?_)
        · rw [List.replicate_succ, List.flatMap_cons]
          exact List.cons_ne_nil _ _
        · obtain ⟨pair, found, within⟩ := List.mem_flatMap.mp mem
          rw [List.eq_of_mem_replicate found] at within
          exact solid_of (p := (· ∈ ['[', ']'])) (by simpa using within) (by decide)

theorem tightAll : (ts : List TypeRef) → (∀ t ∈ ts, t.node.IsSound) →
    (∀ t ∈ ts, AllLegible t.forms) → ∀ t ∈ ts, Tight [] t.text.toList
  | [], _, _ => List.forall_mem_nil _
  | t :: ts, sound, legible => by
    rw [List.forall_mem_cons] at sound legible ⊢
    exact ⟨t.tight sound.1 legible.1, tightAll ts sound.2 legible.2⟩

end

end TypeRef

/-! ## Modifiers and annotations -/

theorem Modifier.tight (m : Modifier) : Tight [] m.text.toList := by
  refine .fixed ?_
  cases m <;> decide

mutual

theorem AnnotationMark.tight : (a : AnnotationMark) → AllLegible a.forms →
    Tight (raws a.forms) a.text.toList
  | .mk _ name elements parenthesized, legible => by
    simp only [AnnotationMark.forms, AnnotationElement.formsOf_eq_map, allLegible_cons] at legible ⊢
    obtain ⟨-, word, arguments⟩ := legible
    have named : Tight [] ("@" ++ name.value).toList := by
      rw [String.toList_append]
      exact .append (.fixed (by decide)) (.word word)
    cases parenthesized with
    | false => exact named
    | true =>
      simp only [if_true, allLegible_parens, allLegible_flatten, List.forall_mem_map] at arguments
      have inner := Inline.intercalate [' '] (by decide)
        (AnnotationElement.tightAll elements arguments)
      have opening : Tight [] ("@" ++ name.value ++ "(").toList := by
        rw [String.toList_append]
        exact named.append (.fixed (by decide))
      have closing : Tight [] [')'] := .fixed (by decide)
      have whole := opening.around inner closing
      rw [AnnotationMark.text, AnnotationElement.texts_eq_map, String.toList_append,
        String.toList_append, String.toList_intercalate, List.map_map]
      simpa [List.flatMap_map, Function.comp_def] using whole

theorem AnnotationElement.tight : (e : AnnotationElement) → AllLegible e.forms →
    Tight (raws e.forms) e.text.toList
  | .mk _ key value comma, legible => by
    simp only [AnnotationElement.forms, allLegible_append] at legible ⊢
    have value := value.tight legible.1.2
    have ending : (if comma then "," else "").toList = [] ∨
        Tight [] (if comma then "," else "").toList := by
      cases comma
      · exact .inl rfl
      · exact .inr (.fixed (by decide))
    have behind : raws (if comma = true then [mark .comma] else []) = [] := by cases comma <;> rfl
    cases key with
    | none =>
      simp only [AnnotationElement.text, String.toList_append]
      simpa [behind] using value.perhaps ending
    | some key =>
      have word : IsWord key.value := (allLegible_cons.mp legible.1.1).1
      have sign : Inline [] " = ".toList := .fixed (by decide)
      have whole := ((Tight.word word).around sign value).perhaps ending
      simp only [AnnotationElement.text, String.toList_append]
      simpa [behind] using whole

theorem AnnotationElement.tightAll : (es : List AnnotationElement) →
    (∀ e ∈ es, AllLegible e.forms) → ∀ e ∈ es, Tight (raws e.forms) e.text.toList
  | [], _ => List.forall_mem_nil _
  | e :: es, legible => by
    rw [List.forall_mem_cons] at legible ⊢
    exact ⟨e.tight legible.1, AnnotationElement.tightAll es legible.2⟩

theorem AnnotationValue.tight : (v : AnnotationValue) → AllLegible v.forms →
    Tight (raws v.forms) v.text.toList
  | .literal _ value, _ => by
    rw [AnnotationValue.forms, value.raws_signedForms]
    exact value.tight
  | .array _ values, legible => by
    simp only [AnnotationValue.forms, AnnotationValue.formsOf_eq_map, allLegible_braces,
      allLegible_commas, List.forall_mem_map] at legible ⊢
    have inner := Inline.intercalate [',', ' '] (by decide)
      (AnnotationValue.tightAll values legible)
    have opening : Tight [] ['\x7b'] := .fixed (by decide)
    have closing : Tight [] ['\x7d'] := .fixed (by decide)
    have whole := opening.around inner closing
    rw [AnnotationValue.text, AnnotationValue.texts_eq_map, String.toList_append,
      String.toList_append, String.toList_intercalate, List.map_map]
    simpa [List.flatMap_map, Function.comp_def] using whole
  | .nested inner, legible => inner.tight legible

theorem AnnotationValue.tightAll : (vs : List AnnotationValue) →
    (∀ v ∈ vs, AllLegible v.forms) → ∀ v ∈ vs, Tight (raws v.forms) v.text.toList
  | [], _ => List.forall_mem_nil _
  | v :: vs, legible => by
    rw [List.forall_mem_cons] at legible ⊢
    exact ⟨v.tight legible.1, AnnotationValue.tightAll vs legible.2⟩

end

end Apex
